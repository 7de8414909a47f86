import GGateway.Proxy.Attempt
import GGateway.Upstream.Completeness

/-!
# The attempt loop as a transaction

What `executeAttempts` may do, over every answer of the world: how many attempts it
sends and where, what it observes, what becomes of permits and of response bodies,
and what it returns.  One lemma says what one pass of the loop can be; the rest
follows by induction on the attempts that are left.
-/

namespace GGateway.Proxy

open Text Model Upstream WebSocket

/-! ## Reading the events -/

/-- The round trips, with their attempt numbers and selections. -/
def sent (events : List AttemptEvent) : List (Nat × Selection) :=
  events.filterMap fun
    | .sent attempt selection => some (attempt, selection)
    | _ => none

def observed (events : List AttemptEvent) : List (Selection × Observation) :=
  events.filterMap fun
    | .observed selection observation => some (selection, observation)
    | _ => none

def drained (events : List AttemptEvent) : List (Nat × Nat) :=
  events.filterMap fun
    | .drained attempt bytes => some (attempt, bytes)
    | _ => none

def closed (events : List AttemptEvent) : List Nat :=
  events.filterMap fun
    | .closed attempt => some attempt
    | _ => none

def discarded (events : List AttemptEvent) : List Nat :=
  events.filterMap fun
    | .discarded attempt => some attempt
    | _ => none

variable (events : List AttemptEvent)

def acquisitions : List Acquisition :=
  events.filterMap fun
    | .asked acquisition => some acquisition
    | _ => none

/-- How often the budget is credited for the request. -/
def credits : Nat :=
  events.countP fun
    | .credited => true
    | _ => false

/-- The permits that were granted. -/
def grants : Nat :=
  ((acquisitions events).filter Acquisition.granted).length

/-- The credits that the calls of `Acquire` have taken. -/
def removedCredits : Int :=
  ((acquisitions events).map Acquisition.removed).sum

/-- Follow the permit: one is granted only when none is held, and released only when
one is held; `none` is a violation. -/
def settle : Bool → List AttemptEvent → Option Bool
  | held, [] => some held
  | held, .asked acquisition :: rest =>
    if acquisition.granted then if held then none else settle true rest else settle held rest
  | held, .released :: rest => if held then settle false rest else none
  | held, _ :: rest => settle held rest

/-- All that is read of the events but the permits in their order. -/
structure Reading where
  sent : List (Nat × Selection) := []
  observed : List (Selection × Observation) := []
  drained : List (Nat × Nat) := []
  closed : List Nat := []
  discarded : List Nat := []
  credits : Nat := 0
  grants : Nat := 0

def reading : Reading :=
  ⟨sent events, observed events, drained events, closed events, discarded events, credits events,
    grants events⟩

section Append

variable (left right : List AttemptEvent)

theorem reading_append :
    reading (left ++ right) =
      ⟨sent left ++ sent right, observed left ++ observed right, drained left ++ drained right,
        closed left ++ closed right, discarded left ++ discarded right,
        credits left + credits right, grants left + grants right⟩ := by
  simp [reading, sent, observed, drained, closed, discarded, credits, grants, acquisitions]

theorem settle_append (held : Bool) :
    settle held (left ++ right) = (settle held left).bind fun after => settle after right := by
  induction left generalizing held with
  | nil => rfl
  | cons event rest ih =>
    cases event with
    | asked acquisition =>
      simp only [List.cons_append, settle]
      split_ifs
      · rfl
      · exact ih true
      · exact ih held
    | released =>
      simp only [List.cons_append, settle]
      split_ifs
      · exact ih false
      · rfl
    | activated | credited | sent | observed | drained | closed | discarded => exact ih held

end Append

/-! ## Credits -/

/-- A call of `Acquire` under way, or ended. -/
def Acquiring : BudgetCall → Prop
  | .tokenSwap current => retryCreditUnit ≤ current
  | .inflightLoad | .inflightSwap _ | .observeLoad _ | .observeSwap _ _ | .tokenLoad
  | .refunding | .refused | .holding => True
  | _ => False

/-- Only the access that ends with the permit takes credits, and it takes one unit. -/
theorem Acquiring.step {call after : BudgetCall} {budget next : RetryBudget} (h : Acquiring call)
    (hstep : call.step budget = some (next, after)) :
    Acquiring after ∧ call ≠ .holding ∧
      (budget.credits.toNat : Int) - next.credits.toNat =
        if after = .holding then 1000 else 0 := by
  cases call with
  | tokenSwap current =>
    simp only [BudgetCall.step] at hstep
    split_ifs at hstep with hsame
    · cases hstep
      have hunit : retryCreditUnit.toNat = 1000 := rfl
      have hle : 1000 ≤ current.toNat := by
        have hcurrent : retryCreditUnit ≤ current := h
        rwa [UInt64.le_iff_toNat_le, hunit] at hcurrent
      have hsub : (current - retryCreditUnit).toNat = current.toNat - 1000 := by
        rw [UInt64.toNat_sub_of_le _ _ h, hunit]
      refine ⟨trivial, by simp, ?_⟩
      rw [if_pos rfl, hsame]
      show (current.toNat : Int) - (current - retryCreditUnit).toNat = 1000
      rw [hsub]
      omega
    · cases hstep
      exact ⟨trivial, by simp, by simp⟩
  | tokenLoad =>
    simp only [BudgetCall.step] at hstep
    split_ifs at hstep with hfew
    · cases hstep
      exact ⟨trivial, by simp, by simp⟩
    cases hstep
    refine ⟨?_, by simp, by simp⟩
    show retryCreditUnit ≤ budget.credits
    exact UInt64.not_lt.mp hfew
  | inflightLoad | inflightSwap | observeLoad | observeSwap =>
    simp only [BudgetCall.step] at hstep
    split_ifs at hstep
    all_goals
      cases hstep
      exact ⟨trivial, by simp, by simp⟩
  | refunding =>
    cases hstep
    exact ⟨trivial, by simp, by simp⟩
  | refused | holding => contradiction
  | creditLoad | creditSwap | saturated | credited | releasing | released => exact h.elim

theorem runAcquire_removed {call : BudgetCall} (h : Acquiring call) {budgets : List RetryBudget}
    {granted : Bool} {taken : Int} (hrun : runAcquire call budgets = some (granted, taken)) :
    taken = if call ≠ .holding ∧ granted then 1000 else 0 := by
  induction budgets generalizing call granted taken with
  | nil =>
    cases call with
    | holding =>
      cases hrun
      simp
    | refused =>
      cases hrun
      simp
    | _ => contradiction
  | cons budget rest ih =>
    simp only [runAcquire] at hrun
    cases hstep : call.step budget with
    | none =>
      rw [hstep] at hrun
      contradiction
    | some result =>
      obtain ⟨next, after⟩ := result
      rw [hstep] at hrun
      obtain ⟨⟨granted', taken'⟩, hrest, heq⟩ := Option.map_eq_some_iff.mp hrun
      cases heq
      obtain ⟨hafter, hnot, hcredits⟩ := h.step hstep
      rw [ih hafter hrest, hcredits]
      by_cases hholding : after = .holding
      · subst hholding
        -- A call that holds its permit has been granted it.
        have hgranted : granted' = true := by
          cases rest with
          | nil => exact (Prod.mk.inj (Option.some.inj hrest)).1.symm
          | cons _ _ => contradiction
        simp [hgranted, hnot]
      · simp [hholding, hnot]

theorem Acquisition.removed_eq (acquisition : Acquisition) :
    acquisition.removed = if acquisition.granted then 1000 else 0 := by
  have hstart : Acquiring .inflightLoad := trivial
  have hremoved := runAcquire_removed hstart acquisition.finished
  simpa using hremoved

theorem removedCredits_eq :
    removedCredits events = 1000 * grants events := by
  unfold removedCredits grants
  induction acquisitions events with
  | nil => rfl
  | cons acquisition rest ih =>
    rw [List.map_cons, List.sum_cons, ih, acquisition.removed_eq]
    cases hgranted : acquisition.granted with
    | true =>
      rw [if_pos rfl, List.filter_cons_of_pos hgranted, List.length_cons]
      push_cast
      omega
    | false =>
      rw [if_neg (by simp), List.filter_cons_of_neg (by simp [hgranted])]
      omega

/-! ## One pass of the loop -/

variable {attempt : Nat} {selection : Selection}

theorem cloneAttemptRequest_eq_ok {request : AttemptRequest} {body : Except Bytes Unit}
    (hbody : request.hasBody = true → request.hasGetBody = true) :
    cloneAttemptRequest request attempt body = .ok () ↔
      (1 < attempt → request.hasBody = true → body = .ok ()) := by
  unfold cloneAttemptRequest
  split_ifs with hagain hgetBody
  · cases body with
    | ok _ => simp [Except.mapError]
    | error cause => simp [Except.mapError, hagain]
  · exact absurd (hbody hagain.2) hgetBody
  · exact iff_of_true rfl fun hlater hhas => absurd ⟨hlater, hhas⟩ hagain

namespace Call

variable {call : Call}

/-- What allows a further attempt after one: the request may be retried, the result
is retryable, the context is live, and a permit was acquired. -/
structure Allows (call : Call) (attempt : Nat) : Prop where
  eligible : call.eligible = true
  retry : (call.decision attempt).retry = true
  alive : (call.world attempt).alive = true
  acquired : call.acquired attempt = true

/-- The round trip of an attempt with what always follows it. -/
def trip (call : Call) (attempt : Nat) (selection : Selection) (permit : Bool) :
    List AttemptEvent :=
  .sent attempt selection :: releases permit ++ call.discards attempt ++
    [.observed selection (call.decision attempt).observation]

/-- The last attempt: after its round trip a permit is asked for at most once, and
given back if no endpoint is left. -/
structure Ends (call : Call) (attempt remaining : Nat) (tried : AttemptSet)
    (tail : List AttemptEvent) (suppressed : Option Suppression) : Prop where
  reading : reading tail = { grants := if suppressed = some .noUntriedEndpoint then 1 else 0 }
  settle : settle false tail = some false
  reason : suppressed ≠ some .bodyNotReplayable
  spent : suppressed = some .noUntriedEndpoint ↔ call.Allows attempt ∧ 0 < remaining
  left : suppressed = some .noUntriedEndpoint →
    ∀ next, call.selectNext (attempt + 1) tried ≠ .ok next

theorem selectNext_fresh {attempted : AttemptSet}
    (h : call.selectNext attempt attempted = .ok selection) :
    selection.ordinal ∉ attempted.ordinals ∧ selection.ordinal < call.plan.endpoints.length := by
  obtain ⟨endpoint, hendpoint, _, _, hselectable⟩ := Plan.selectNext_sound h
  obtain ⟨_, hopen⟩ := Plan.selectable_iff.mp hselectable
  exact ⟨hopen.untried attempted rfl, (List.getElem?_eq_some_iff.mp hendpoint).1⟩

/-- What is selected before the last attempt is always added. -/
theorem exists_add {attempted : AttemptSet} (hroom : attempted.ordinals.length < 5)
    (hfresh : selection.ordinal ∉ attempted.ordinals) :
    ∃ more, attempted.add selection.ordinal = some more ∧
      more.ordinals = attempted.ordinals ++ [selection.ordinal] := by
  unfold AttemptSet.add
  rw [dif_pos ⟨hfresh, hroom⟩]
  exact ⟨_, rfl, rfl⟩

theorem asks_spec (call : Call) (attempt : Nat) :
    Proxy.reading (call.asks attempt) = { grants := if call.acquired attempt then 1 else 0 } ∧
      Proxy.settle false (call.asks attempt) = some (call.acquired attempt) := by
  unfold asks acquired
  cases call.plan.budget.isSome with
  | false => exact ⟨rfl, rfl⟩
  | true =>
    cases hgranted : (call.world attempt).acquisition.granted <;>
      simp [Proxy.reading, sent, observed, drained, closed, discarded, credits, Proxy.grants,
        acquisitions, Proxy.settle, hgranted]

/-- One pass: the body cannot be made again; or the attempt is the last one; or a
further attempt is allowed, its endpoint selected and the response drained. -/
theorem loop_cases (call : Call) {remaining : Nat} {attempted more : AttemptSet} (permit : Bool)
    (hadd : attempted.add selection.ordinal = some more)
    (hlast : attempt + remaining = call.maxAttempts) :
    (∃ cause, cloneAttemptRequest call.request attempt (call.world attempt).body = .error cause ∧
      call.loop (remaining + 1) attempt attempted selection permit = (releases permit,
        ⟨none, some selection, some (.clone cause), attempt, some .bodyNotReplayable⟩)) ∨
    cloneAttemptRequest call.request attempt (call.world attempt).body = .ok () ∧
    ((∃ tail suppressed, call.Ends attempt remaining more tail suppressed ∧
      call.loop (remaining + 1) attempt attempted selection permit =
        (call.trip attempt selection permit ++ tail,
          call.finish attempt selection suppressed)) ∨
    (call.Allows attempt ∧ 0 < remaining ∧ ∃ next,
      call.selectNext (attempt + 1) more = .ok next ∧
      call.loop (remaining + 1) attempt attempted selection permit =
        (call.trip attempt selection permit ++ call.asks attempt ++ call.drain attempt ++
            (call.loop remaining (attempt + 1) more next true).1,
          (call.loop remaining (attempt + 1) more next true).2))) := by
  obtain ⟨hreading, hsettle⟩ := call.asks_spec attempt
  rw [loop, hadd]
  cases hclone : cloneAttemptRequest call.request attempt (call.world attempt).body with
  | error cause => exact Or.inl ⟨cause, rfl, rfl⟩
  | ok cloned =>
    refine Or.inr ⟨rfl, ?_⟩
    dsimp only
    split_ifs with hstop hacquired
    · left
      refine ⟨[], call.stopped attempt, ?_, by rw [List.append_nil]; rfl⟩
      have hreasons : call.stopped attempt ≠ some .noUntriedEndpoint ∧
          call.stopped attempt ≠ some .bodyNotReplayable := by
        unfold stopped
        split_ifs <;> simp
      have hends : ¬ (call.Allows attempt ∧ 0 < remaining) := by
        rintro ⟨hallows, hmore⟩
        have hlater : attempt ≠ call.maxAttempts := by omega
        simp [hallows.eligible, hallows.retry, hallows.alive, hlater] at hstop
      exact ⟨by rw [if_neg hreasons.1]; rfl, rfl, hreasons.2,
        iff_of_false hreasons.1 hends, fun hreason => absurd hreason hreasons.1⟩
    · have hgo : call.eligible = true ∧ (call.decision attempt).retry = true ∧
          attempt ≠ call.maxAttempts ∧ (call.world attempt).alive = true := by
        simpa [not_or, and_assoc] using hstop
      have hallows : call.Allows attempt := ⟨hgo.1, hgo.2.1, hgo.2.2.2, hacquired⟩
      have hmore : 0 < remaining := by omega
      cases hnext : call.selectNext (attempt + 1) more with
      | error cause =>
        left
        refine ⟨call.asks attempt ++ [.released], some .noUntriedEndpoint, ?_,
          by rw [← List.append_assoc]; rfl⟩
        refine ⟨?_, ?_, by simp, iff_of_true rfl ⟨hallows, hmore⟩, by simp [hnext]⟩
        · rw [if_pos hacquired, Proxy.reading, Reading.mk.injEq] at hreading
          rw [reading_append]
          simp only [hreading]
          rfl
        · rw [settle_append, hsettle, hacquired]
          rfl
      | ok next =>
        refine Or.inr ⟨hallows, hmore, next, rfl, ?_⟩
        simp only [trip, List.append_assoc, List.cons_append]
    · left
      refine ⟨call.asks attempt, some .budget, ?_, rfl⟩
      rw [if_neg hacquired] at hreading
      have hfalse : call.acquired attempt = false := by simpa using hacquired
      rw [hfalse] at hsettle
      exact ⟨by rw [hreading]; simp, hsettle, by simp, iff_of_false (by simp)
        fun h => hacquired h.1.acquired, by simp⟩

/-! ## The whole loop -/

/-- The bodies of a stretch of attempts, each read up to one byte over the limit. -/
def drains (call : Call) (attempt count : Nat) : List (Nat × Nat) :=
  (List.range' attempt count).filterMap fun number =>
    ((call.world number).result.response.bind Response.body).map fun available =>
      (number, min available (32 * 1024 + 1))

/-- The attempts of a stretch whose responses the classifier closes. -/
def discardedAmong (call : Call) (attempt count : Nat) : List Nat :=
  (List.range' attempt count).filter fun number => (call.classified number).closes

/-- What is returned when the last of the attempts was sent. -/
structure Returns (call : Call) (last : Nat) (returned : AttemptReturn) : Prop where
  attempts : returned.attempts = last
  response : returned.response = (call.world last).result.response
  err : returned.err = (call.world last).result.err.map .transport
  reason : returned.suppressed ≠ some .bodyNotReplayable

/-- What is returned when the body of an attempt could not be made again. -/
structure Aborts (last : Nat) (returned : AttemptReturn) : Prop where
  attempts : returned.attempts = last + 1
  response : returned.response = none
  err : ∃ cause, returned.err = some (.clone cause)
  reason : returned.suppressed = some .bodyNotReplayable

/-- The permits that paid for no attempt. -/
def wasted (returned : AttemptReturn) : Nat :=
  if returned.suppressed = some .noUntriedEndpoint ∨
      returned.suppressed = some .bodyNotReplayable then 1
  else 0

/-- What the loop does from an attempt on, with `count` round trips of which
`superseded` were followed by a further selection. -/
structure Summary (call : Call) (attempt : Nat) (tried : List Nat) (permit : Bool)
    (events : List AttemptEvent) (returned : AttemptReturn) (count superseded : Nat) : Prop where
  numbers : (sent events).map Prod.fst = List.range' attempt count
  fresh : (tried ++ (sent events).map fun trip => trip.2.ordinal).Nodup
  valid : ∀ trip ∈ sent events, trip.2.ordinal < call.plan.endpoints.length
  observed : observed events = (sent events).map fun trip =>
    (trip.2, (call.decision trip.1).observation)
  settle : settle permit events = some false
  allowed : ∀ number, attempt ≤ number → number < attempt + superseded → call.Allows number
  drained : drained events = call.drains attempt superseded
  closed : closed events = (call.drains attempt superseded).map Prod.fst
  discarded : discarded events = call.discardedAmong attempt count
  credits : credits events = 0
  grants : grants events + 1 = count + wasted returned
  returned : (count = superseded + 1 ∧ call.Returns (attempt + superseded) returned) ∨
    (count = superseded ∧ Aborts (attempt + superseded - 1) returned)

theorem releases_spec (permit : Bool) :
    reading (releases permit) = {} ∧ Proxy.settle permit (releases permit) = some false := by
  cases permit <;> exact ⟨rfl, rfl⟩

theorem trip_spec (call : Call) (attempt : Nat) (selection : Selection) (permit : Bool) :
    reading (call.trip attempt selection permit) =
        { sent := [(attempt, selection)]
          observed := [(selection, (call.decision attempt).observation)]
          discarded := call.discardedAmong attempt 1 } ∧
      settle permit (call.trip attempt selection permit) = some false := by
  have hone : call.discardedAmong attempt 1 =
      if (call.classified attempt).closes then [attempt] else [] := by
    unfold discardedAmong
    rw [List.range'_one, List.filter_singleton, Bool.cond_eq_ite]
  rw [hone]
  unfold trip discards
  cases permit <;> cases (call.classified attempt).closes <;> exact ⟨rfl, rfl⟩

theorem drain_spec (call : Call) (attempt : Nat) (held : Bool) :
    reading (call.drain attempt) =
        { drained := call.drains attempt 1
          closed := (call.drains attempt 1).map Prod.fst } ∧
      settle held (call.drain attempt) = some held := by
  have hone : call.drains attempt 1 =
      (((call.world attempt).result.response.bind Response.body).map fun available =>
        (attempt, min available (32 * 1024 + 1))).toList := by
    unfold drains
    rw [List.range'_one, List.filterMap_cons, List.filterMap_nil]
    cases (call.world attempt).result.response.bind Response.body <;> rfl
  rw [hone]
  unfold drain
  cases (call.world attempt).result.response.bind Response.body <;> exact ⟨rfl, rfl⟩

theorem stretch_succ (call : Call) (attempt count : Nat) :
    call.drains attempt (count + 1) = call.drains attempt 1 ++ call.drains (attempt + 1) count ∧
      call.discardedAmong attempt (count + 1) =
        call.discardedAmong attempt 1 ++ call.discardedAmong (attempt + 1) count := by
  unfold drains discardedAmong
  rw [← List.filterMap_append, ← List.filter_append, Nat.add_comm count 1, ← List.range'_append_1]
  exact ⟨rfl, rfl⟩

/-- An attempt that is never sent. -/
theorem summary_abort {tried : List Nat} {permit : Bool} {returned : AttemptReturn}
    (htried : tried.Nodup) (hreturned : Aborts (attempt - 1) returned) :
    call.Summary attempt tried permit (releases permit) returned 0 0 := by
  obtain ⟨hreading, hsettle⟩ := releases_spec permit
  obtain ⟨hsent, hobserved, hdrained, hclosed, hdiscarded, hcredits, hgrants⟩ :=
    Reading.mk.inj hreading
  refine ⟨?_, ?_, ?_, ?_, hsettle, ?_, hdrained, hclosed, hdiscarded, hcredits, ?_,
    Or.inr ⟨rfl, hreturned⟩⟩
  · rw [hsent]
    rfl
  · rw [hsent, List.map_nil, List.append_nil]
    exact htried
  · rw [hsent]
    simp
  · rw [hsent, hobserved]
    rfl
  · intro number hle hlt
    omega
  · rw [hgrants, wasted, if_pos (Or.inr hreturned.reason)]

theorem summary_end {tried : List Nat} {permit : Bool} {tail : List AttemptEvent} {remaining : Nat}
    {more : AttemptSet} {suppressed : Option Suppression}
    (htried : (tried ++ [selection.ordinal]).Nodup)
    (hvalid : selection.ordinal < call.plan.endpoints.length)
    (h : call.Ends attempt remaining more tail suppressed) :
    call.Summary attempt tried permit (call.trip attempt selection permit ++ tail)
      (call.finish attempt selection suppressed) 1 0 := by
  obtain ⟨htrip, hsettle⟩ := call.trip_spec attempt selection permit
  obtain ⟨hsent, hobserved, hdrained, hclosed, hdiscarded, hcredits, hgrants⟩ : _ ∧ _ := by
    have hall := reading_append (call.trip attempt selection permit) tail
    rw [reading, Reading.mk.injEq] at htrip
    have htail := h.reading
    rw [Proxy.reading, Reading.mk.injEq] at htail
    simp only [htrip, htail, List.append_nil, Nat.zero_add] at hall
    exact Reading.mk.inj hall
  refine ⟨?_, ?_, ?_, ?_, ?_, ?_, hdrained, hclosed, hdiscarded, hcredits, ?_,
    Or.inl ⟨rfl, rfl, rfl, rfl, h.reason⟩⟩
  · rw [hsent]
    rfl
  · rw [hsent]
    exact htried
  · rw [hsent]
    exact List.forall_mem_singleton.mpr hvalid
  · rw [hsent, hobserved]
    rfl
  · rw [settle_append, hsettle, Option.bind_some, h.settle]
  · intro number hle hlt
    omega
  · have hreason : (call.finish attempt selection suppressed).suppressed = suppressed := rfl
    simp [hgrants, wasted, hreason, h.reason, Nat.add_comm]

theorem summary_retry {tried : List Nat} {permit : Bool} {rest : List AttemptEvent}
    {returned : AttemptReturn} {count superseded : Nat}
    (hvalid : selection.ordinal < call.plan.endpoints.length) (hallows : call.Allows attempt)
    (h : call.Summary (attempt + 1) (tried ++ [selection.ordinal]) true rest returned count
      superseded) :
    call.Summary attempt tried permit
      (call.trip attempt selection permit ++ call.asks attempt ++ call.drain attempt ++ rest)
      returned (count + 1) (superseded + 1) := by
  obtain ⟨htrip, hreleased⟩ := call.trip_spec attempt selection permit
  obtain ⟨hasks, hacquired⟩ := call.asks_spec attempt
  obtain ⟨hdrain, hheld⟩ := call.drain_spec attempt true
  rw [hallows.acquired] at hasks hacquired
  obtain ⟨hsent, hobserved, hdrained, hclosed, hdiscarded, hcredits, hgrants⟩ : _ ∧ _ := by
    have hall := reading_append (call.trip attempt selection permit ++ call.asks attempt ++
      call.drain attempt) rest
    have hthree := reading_append (call.trip attempt selection permit ++ call.asks attempt)
      (call.drain attempt)
    have htwo := reading_append (call.trip attempt selection permit) (call.asks attempt)
    simp only [reading, Reading.mk.injEq] at htrip hasks hdrain htwo hthree
    simp only [hthree, htwo, htrip, hasks, hdrain, List.append_nil, List.nil_append,
      List.singleton_append] at hall
    exact Reading.mk.inj hall
  refine ⟨?_, ?_, ?_, ?_, ?_, ?_, ?_, ?_, ?_, ?_, ?_, ?_⟩
  · rw [hsent, List.map_cons, h.numbers, List.range'_succ]
  · rw [hsent, List.map_cons]
    have hfresh := h.fresh
    rwa [List.append_assoc] at hfresh
  · rw [hsent]
    exact List.forall_mem_cons.mpr ⟨hvalid, h.valid⟩
  · rw [hsent, List.map_cons, ← h.observed, hobserved]
  · simp only [settle_append, hreleased, hacquired, hheld, Option.bind_some, h.settle]
  · intro number hle hlt
    rcases Nat.lt_or_eq_of_le hle with hlater | rfl
    · exact h.allowed number hlater (by omega)
    · exact hallows
  · rw [hdrained, h.drained, (call.stretch_succ attempt superseded).1]
  · rw [hclosed, h.closed, (call.stretch_succ attempt superseded).1, List.map_append]
  · rw [hdiscarded, h.discarded, (call.stretch_succ attempt count).2]
  · rw [hcredits, h.credits]
  · have hrest := h.grants
    rw [hgrants]
    simp only [if_true]
    omega
  · rcases h.returned with ⟨hcount, hreturns⟩ | ⟨hcount, haborts⟩
    · refine Or.inl ⟨by omega, ?_⟩
      rwa [Nat.add_right_comm, Nat.add_assoc] at hreturns
    · refine Or.inr ⟨by omega, ?_⟩
      rwa [show attempt + 1 + superseded - 1 = attempt + (superseded + 1) - 1 by omega] at haborts

theorem loop_summary (call : Call) {remaining : Nat} {attempted : AttemptSet} (permit : Bool)
    (hattempt : attempted.ordinals.length + 1 = attempt)
    (hlast : attempt + remaining = call.maxAttempts)
    (hfresh : selection.ordinal ∉ attempted.ordinals)
    (hvalid : selection.ordinal < call.plan.endpoints.length) :
    ∃ count superseded, count ≤ remaining + 1 ∧ (1 < attempt ∨ 0 < count) ∧
      call.Summary attempt attempted.ordinals permit
        (call.loop (remaining + 1) attempt attempted selection permit).1
        (call.loop (remaining + 1) attempt attempted selection permit).2 count superseded := by
  induction remaining using Nat.strong_induction_on generalizing attempt attempted selection permit
  rename_i remaining ih
  have hmax : call.maxAttempts ≤ 5 := Nat.min_le_left _ _
  obtain ⟨more, hadd, hordinals⟩ := exists_add (by omega) hfresh
  rcases call.loop_cases permit hadd hlast with
    ⟨cause, hclone, hloop⟩ | ⟨_, ⟨tail, suppressed, hends, hloop⟩ |
      ⟨hallows, hmore, next, hnext, hloop⟩⟩
  · have hlater : 1 < attempt := by
      by_contra hfirst
      rw [cloneAttemptRequest, if_neg (fun h => hfirst h.1)] at hclone
      contradiction
    rw [hloop]
    exact ⟨0, 0, by omega, Or.inl hlater, summary_abort attempted.nodup
      ⟨by dsimp only; omega, rfl, ⟨cause, rfl⟩, rfl⟩⟩
  · rw [hloop]
    exact ⟨1, 0, by omega, Or.inr (by omega),
      summary_end (hordinals ▸ more.nodup) hvalid hends⟩
  · obtain ⟨hunused, hendpoint⟩ := selectNext_fresh hnext
    obtain ⟨left, rfl⟩ : ∃ left, remaining = left + 1 := ⟨remaining - 1, by omega⟩
    have hlength : more.ordinals.length + 1 = attempt + 1 := by
      rw [hordinals, List.length_append, List.length_singleton]
      omega
    obtain ⟨count, superseded, hcount, _, hsummary⟩ :=
      ih left (by omega) true hlength (by omega) hunused hendpoint
    rw [hordinals] at hsummary
    rw [hloop]
    exact ⟨count + 1, superseded + 1, by omega, Or.inr (by omega),
      summary_retry hvalid hallows hsummary⟩

end Call

/-! ## The transaction -/

/-- The whole of `executeAttempts`: no endpoint can be selected, or the loop runs. -/
theorem Call.executeAttempts_cases (call : Call) :
    (∃ cause, call.selectNext 1 .empty = .error cause ∧ call.executeAttempts =
      ([.activated, .credited], ⟨none, none, some (.select cause), 0, none⟩)) ∨
    ∃ events returned count superseded,
      call.executeAttempts = (.activated :: .credited :: events, returned) ∧
      count ≤ call.maxAttempts ∧ 0 < count ∧
      call.Summary 1 [] false events returned count superseded := by
  unfold Call.executeAttempts
  cases hfirst : call.selectNext 1 .empty with
  | error cause => exact Or.inl ⟨cause, rfl, rfl⟩
  | ok selection =>
    right
    obtain ⟨_, hvalid⟩ := Call.selectNext_fresh hfirst
    have hmin : 1 ≤ call.maxAttempts := le_min (by omega) (le_max_left _ _)
    obtain ⟨remaining, hremaining⟩ : ∃ remaining, call.maxAttempts = remaining + 1 :=
      ⟨call.maxAttempts - 1, by omega⟩
    have hattempt : AttemptSet.empty.ordinals.length + 1 = 1 := rfl
    obtain ⟨count, superseded, hcount, hsome, hsummary⟩ :=
      call.loop_summary false hattempt (by omega : 1 + remaining = call.maxAttempts)
        (by simp [AttemptSet.empty]) hvalid
    rw [← hremaining] at hcount hsummary
    exact ⟨_, _, count, superseded, rfl, hcount, by omega, hsummary⟩

/-- Every round trip is observed once, as it was classified. -/
theorem Call.observed_executeAttempts (call : Call) :
    observed call.executeAttempts.1 = (sent call.executeAttempts.1).map fun trip =>
      (trip.2, (call.decision trip.1).observation) := by
  rcases call.executeAttempts_cases with
    ⟨cause, _, hrun⟩ | ⟨events, returned, count, superseded, hrun, _, _, h⟩
  · rw [hrun]
    rfl
  · rw [hrun]
    exact h.observed

/-- A request that may be retried: its method is listed, its body is absent or can be
made again, and the context was live at the start. -/
theorem Call.eligible_spec {call : Call} (h : call.eligible = true) :
    toUpper call.platform.tables call.request.method ∈ call.policy.methods ∧
      (call.request.hasBody = true → call.request.hasGetBody = true) ∧ call.live = true := by
  unfold Call.eligible retryEligible at h
  split_ifs at h with hoff hmethod
  · rw [not_or] at hoff
    refine ⟨hmethod, fun hbody => ?_, by simpa using hoff.2⟩
    simpa [hbody] using h

/-- No body of a stretch of attempts belongs to a later attempt. -/
theorem Call.lt_of_mem_drains {call : Call} {count : Nat} {entry : Nat × Nat}
    (h : entry ∈ call.drains attempt count) : entry.1 < attempt + count := by
  obtain ⟨number, hnumber, hentry⟩ := List.mem_filterMap.mp h
  obtain ⟨_, _, rfl⟩ := Option.map_eq_some_iff.mp hentry
  exact (List.mem_range'_1.mp hnumber).2

namespace Call.Summary

variable {call : Call} {tried : List Nat} {permit : Bool} {events : List AttemptEvent}
  {returned : AttemptReturn} {attempt count superseded : Nat}

section Summaries

variable (h : call.Summary attempt tried permit events returned count superseded)

include h

theorem length_sent :
    (sent events).length = count := by
  have hlength := congrArg List.length h.numbers
  rwa [List.length_map, List.length_range'] at hlength

theorem nodup :
    ((sent events).map fun trip => trip.2.ordinal).Nodup :=
  (List.nodup_append.mp h.fresh).2.1

/-- Distinct endpoints of the plan are not more than it has. -/
theorem count_le :
    count ≤ call.plan.endpoints.length := by
  have hsub : ((sent events).map fun trip => trip.2.ordinal) ⊆
      List.range call.plan.endpoints.length := by
    intro ordinal hordinal
    obtain ⟨trip, htrip, rfl⟩ := List.mem_map.mp hordinal
    exact List.mem_range.mpr (h.valid trip htrip)
  have hle := (h.nodup.subperm hsub).length_le
  rwa [List.length_map, List.length_range, h.length_sent] at hle

/-- The result that is returned was neither drained nor closed. -/
theorem untouched
    (hreturned : returned.attempts = attempt + superseded) :
    returned.attempts ∉ Proxy.closed events ∧
      ∀ bytes, (returned.attempts, bytes) ∉ Proxy.drained events := by
  have hlater : ∀ bytes, (returned.attempts, bytes) ∉ call.drains attempt superseded := by
    intro bytes hmem
    have hlt := lt_of_mem_drains hmem
    omega
  rw [h.closed, h.drained]
  refine ⟨fun hmem => ?_, hlater⟩
  obtain ⟨⟨number, bytes⟩, hentry, hnumber⟩ := List.mem_map.mp hmem
  dsimp only at hnumber
  rw [hnumber] at hentry
  exact hlater bytes hentry

end Summaries

end Call.Summary

/-- The WebSocket classifier closes an invalid 101, and only where the policy retries failed
connections. -/
theorem classifyWebSocketAttempt_closes {tables : UnicodeTables} {sha1 : Bytes → Bytes}
    {handshake : RequestHandshake} {policy : RetryPolicy} {result : RoundTripResult}
    (h : (classifyWebSocketAttempt tables sha1 handshake policy result).closes = true) :
    ∃ response, result = ⟨some response, none⟩ ∧ response.status = 101 ∧
      (validateResponse tables sha1 handshake ⟨response.status, response.header⟩).isOk = false ∧
      policy.retryOn.connectionFailure = true := by
  obtain ⟨response, err⟩ := result
  cases err with
  | some err => contradiction
  | none =>
    cases response with
    | none => contradiction
    | some response =>
      unfold classifyWebSocketAttempt at h
      dsimp only at h
      split_ifs at h with hinvalid
      exact ⟨response, rfl, hinvalid.1, hinvalid.2, (Bool.and_eq_true_iff.mp h).1⟩

/-- For every policy, plan and request, every answer of the world and every classifier,
`executeAttempts` sends at most as many attempts as the clamped limit and the
positive-weight endpoints allow, to distinct endpoints; it credits the budget once;
it observes every round trip once; every permit it acquires is released once before
it acquires another or returns; it sends a further attempt only if the method is
listed, the body absent or replayable, the context live, the result before it
retryable and a permit acquired; it drains and closes the body of every result that
it goes on from, and no other; and it returns the result of the last attempt, unless
nothing could be selected or the body could not be made again.  Apart from the loop only
the classifier closes bodies: `classifyAttempt` none, that of the WebSocket path those of
invalid 101 responses, of which one may be the response that is returned. -/
theorem attempts_transaction (call : Call) :
    let events := call.executeAttempts.1
    let returned := call.executeAttempts.2
    let trips := sent events
    trips.length ≤ min (min 5 (max 1 call.policy.maxAttempts.toNat)) call.plan.endpoints.length ∧
    (∀ resource registry owned, call.plan.Serves call.platform resource registry owned →
      call.plan.endpoints.length = (resource.endpoints.filter (·.weight ≠ 0)).length) ∧
    (trips.map fun trip => trip.2.ordinal).Nodup ∧
    trips.map Prod.fst = List.range' 1 trips.length ∧
    credits events = 1 ∧
    (observed events = trips.map fun trip => (trip.2, (call.decision trip.1).observation)) ∧
    settle false events = some false ∧
    (∀ number, 1 ≤ number → number < trips.length →
      toUpper call.platform.tables call.request.method ∈ call.policy.methods ∧
      (call.request.hasBody = true → call.request.hasGetBody = true) ∧
      call.live = true ∧ (call.world number).alive = true ∧
      (call.decision number).retry = true ∧ call.acquired number = true) ∧
    discarded events = call.discardedAmong 1 trips.length ∧
    (call.classify = plainClassifier → discarded events = []) ∧
    (∀ tables sha1 handshake, call.classify = classifyWebSocketAttempt tables sha1 handshake →
      ∀ number ∈ discarded events, ∃ response,
        (call.world number).result = ⟨some response, none⟩ ∧ response.status = 101 ∧
        (validateResponse tables sha1 handshake ⟨response.status, response.header⟩).isOk = false ∧
        call.policy.retryOn.connectionFailure = true) ∧
    ∃ superseded,
      drained events = call.drains 1 superseded ∧
      closed events = (call.drains 1 superseded).map Prod.fst ∧
      ((trips.length = 0 ∧ superseded = 0 ∧
          ∃ cause, call.selectNext 1 .empty = .error cause ∧
            returned.err = some (.select cause) ∧ returned.response = none) ∨
        (trips.length = superseded + 1 ∧ call.Returns trips.length returned ∧
          returned.attempts ∉ closed events ∧
          ∀ bytes, (returned.attempts, bytes) ∉ drained events) ∨
        (trips.length = superseded ∧ 1 ≤ superseded ∧ Call.Aborts superseded returned)) := by
  intro events returned trips
  have hserved : ∀ resource registry owned,
      call.plan.Serves call.platform resource registry owned →
      call.plan.endpoints.length = (resource.endpoints.filter (·.weight ≠ 0)).length := by
    intro resource registry owned hserves
    have hlength := congrArg List.length hserves.endpoints
    rwa [servedEndpoints, List.length_map, List.length_map] at hlength
  rcases call.executeAttempts_cases with
    ⟨cause, hselect, hrun⟩ | ⟨rest, result, count, superseded, hrun, hlimit, hpos, h⟩
  · have hevents : events = [.activated, .credited] := congrArg Prod.fst hrun
    have hreturned : returned = ⟨none, none, some (.select cause), 0, none⟩ :=
      congrArg Prod.snd hrun
    have htrips : trips = [] := by
      show sent events = []
      rw [hevents]
      rfl
    rw [htrips, hevents, hreturned]
    refine ⟨Nat.zero_le _, hserved, List.nodup_nil, rfl, rfl, rfl, rfl, ?_, rfl, fun _ => rfl,
      fun _ _ _ _ _ hnumber => absurd hnumber List.not_mem_nil, 0, rfl, rfl,
      Or.inl ⟨rfl, rfl, cause, hselect, rfl, rfl⟩⟩
    intro number _ hnumber
    exact absurd hnumber (Nat.not_lt_zero _)
  · -- The two leading events are neither round trips nor bodies nor permits.
    have hevents : events = [.activated, .credited] ++ rest := congrArg Prod.fst hrun
    have hreturned : returned = result := congrArg Prod.snd hrun
    have htrips : trips = sent rest := by
      show sent events = sent rest
      rw [hevents]
      rfl
    have hcount : trips.length = count := htrips ▸ h.length_sent
    have hdiscarded : discarded ([.activated, .credited] ++ rest) = call.discardedAmong 1 count :=
      h.discarded
    rw [hcount, htrips, hevents, hreturned, hdiscarded]
    refine ⟨le_min hlimit h.count_le, hserved, h.nodup, h.numbers, ?_, h.observed, h.settle, ?_,
      rfl, ?_, ?_, superseded, h.drained, h.closed, Or.inr ?_⟩
    · have hcredits := congrArg Reading.credits (reading_append [.activated, .credited] rest)
      exact hcredits.trans (congrArg (1 + ·) h.credits)
    · intro number hfirst hnumber
      have hearlier : number < 1 + superseded := by
        rcases h.returned with ⟨hsuperseded, _⟩ | ⟨hsuperseded, _⟩ <;> omega
      have hallows := h.allowed number hfirst hearlier
      obtain ⟨hmethod, hbody, hlive⟩ := Call.eligible_spec hallows.eligible
      exact ⟨hmethod, hbody, hlive, hallows.alive, hallows.retry, hallows.acquired⟩
    · intro hclassify
      simp [Call.discardedAmong, Call.classified, hclassify, plainClassifier]
    · intro tables sha1 handshake hclassify number hnumber
      have hcloses := (List.mem_filter.mp hnumber).2
      rw [Call.classified, hclassify] at hcloses
      exact classifyWebSocketAttempt_closes hcloses
    · rcases h.returned with ⟨hsuperseded, hreturns⟩ | ⟨hsuperseded, haborts⟩
      · have hlast : count = 1 + superseded := by omega
        refine Or.inl ⟨hsuperseded, hlast ▸ hreturns, h.untouched hreturns.attempts⟩
      · refine Or.inr ⟨hsuperseded, by omega, ?_⟩
        rwa [show 1 + superseded - 1 = superseded by omega] at haborts

/-! ## What the retries cost -/

/-- The credits of a run: those of the retries it sent, and those of a permit that
paid for none. -/
theorem Call.removedCredits_executeAttempts (call : Call) :
    removedCredits call.executeAttempts.1 =
      1000 * ((sent call.executeAttempts.1).length - 1 : Nat) +
        1000 * Call.wasted call.executeAttempts.2 := by
  rw [removedCredits_eq]
  rcases call.executeAttempts_cases with
    ⟨cause, _, hrun⟩ | ⟨events, returned, count, superseded, hrun, _, hpos, h⟩
  · rw [hrun]
    rfl
  rw [hrun]
  have hgrants : grants (.activated :: .credited :: events) = grants events := rfl
  have hsent : sent (.activated :: .credited :: events) = sent events := rfl
  have hpaid := h.grants
  dsimp only
  rw [hgrants, hsent, h.length_sent]
  omega

namespace Call

/-- The endpoints of the first attempts, if so many can be selected one after the other. -/
def tried (call : Call) : Nat → Option AttemptSet
  | 0 => some .empty
  | number + 1 =>
    match call.tried number with
    | none => none
    | some attempted =>
      match call.selectNext (number + 1) attempted with
      | .error _ => none
      | .ok selection => attempted.add selection.ordinal

/-- A retry that is granted after an attempt can be sent: an endpoint is left for it, and
`GetBody` gives the body again. -/
structure Sendable (call : Call) (number : Nat) (attempted : AttemptSet) : Prop where
  endpoint : ∃ next, call.selectNext (number + 1) attempted = .ok next
  body : call.request.hasBody = true → (call.world (number + 1)).body = .ok ()

/-- Wherever the world grants all retries from an attempt on, the next one can be sent. -/
def GrantsSendable (call : Call) (first : Nat) : Prop :=
  ∀ number attempted, first ≤ number → number < call.maxAttempts →
    (∀ earlier, first ≤ earlier → earlier ≤ number → call.Allows earlier) →
    call.tried number = some attempted → call.Sendable number attempted

variable {call : Call} {more : AttemptSet}

theorem grantsSendable_succ (hallows : call.Allows attempt) (hlt : attempt < call.maxAttempts)
    (htried : call.tried attempt = some more) :
    call.GrantsSendable attempt ↔
      call.Sendable attempt more ∧ call.GrantsSendable (attempt + 1) := by
  have hfrom : ∀ {number}, (∀ earlier, attempt + 1 ≤ earlier → earlier ≤ number →
      call.Allows earlier) → ∀ earlier, attempt ≤ earlier → earlier ≤ number →
        call.Allows earlier := by
    intro number hrest earlier hle hle'
    rcases Nat.lt_or_eq_of_le hle with hlater | rfl
    · exact hrest earlier hlater hle'
    · exact hallows
  constructor
  · intro h
    refine ⟨h attempt more le_rfl hlt (hfrom fun earlier _ _ => by omega) htried, ?_⟩
    intro number attempted hle hlt' hrest
    exact h number attempted (by omega) hlt' (hfrom hrest)
  · rintro ⟨hfirst, hlater⟩ number attempted hle hlt' hall hnumber
    rcases Nat.lt_or_eq_of_le hle with hgt | rfl
    · exact hlater number attempted hgt hlt' (fun earlier _ => hall earlier (by omega)) hnumber
    · obtain rfl := Option.some.inj (htried.symm.trans hnumber)
      exact hfirst

/-- A permit is wasted exactly where a granted retry cannot be sent. -/
theorem wasted_loop (call : Call) {remaining : Nat} {attempted : AttemptSet} (permit : Bool)
    (hattempt : attempted.ordinals.length + 1 = attempt)
    (hlast : attempt + remaining = call.maxAttempts)
    (hadd : attempted.add selection.ordinal = some more) (htried : call.tried attempt = some more)
    (hlater : 1 < attempt → call.eligible = true) :
    wasted (call.loop (remaining + 1) attempt attempted selection permit).2 = 0 ↔
      (1 < attempt → call.request.hasBody = true → (call.world attempt).body = .ok ()) ∧
        call.GrantsSendable attempt := by
  induction remaining using Nat.strong_induction_on
    generalizing attempt attempted selection permit more
  rename_i remaining ih
  have hmax : call.maxAttempts ≤ 5 := Nat.min_le_left _ _
  have hordinals : more.ordinals.length + 1 = attempt + 1 := by
    unfold AttemptSet.add at hadd
    split_ifs at hadd
    cases hadd
    simpa using hattempt
  -- The first attempt never makes the body again; a later one was eligible.
  have hclones : cloneAttemptRequest call.request attempt (call.world attempt).body = .ok () ↔
      (1 < attempt → call.request.hasBody = true → (call.world attempt).body = .ok ()) := by
    by_cases hfirst : 1 < attempt
    · exact cloneAttemptRequest_eq_ok (eligible_spec (hlater hfirst)).2.1
    · simp [cloneAttemptRequest, hfirst]
  rcases call.loop_cases permit hadd hlast with
    ⟨cause, hclone, hloop⟩ | ⟨hclone, ⟨tail, suppressed, hends, hloop⟩ |
      ⟨hallows, hmore, next, hnext, hloop⟩⟩
  · rw [hloop, ← hclones, hclone]
    simp [wasted]
  · have hreason : (call.finish attempt selection suppressed).suppressed = suppressed := rfl
    have hwasted : wasted (call.finish attempt selection suppressed) = 0 ↔
        ¬ (call.Allows attempt ∧ 0 < remaining) := by
      rw [← hends.spent, wasted, hreason]
      simp [hends.reason]
    rw [hloop, hwasted, ← hclones]
    simp only [hclone, true_and]
    constructor
    · intro hstop number attempted hle hlt hall _
      exact absurd ⟨hall attempt le_rfl hle, by omega⟩ hstop
    · rintro hsends ⟨hallows, hmore⟩
      obtain ⟨next, hnext⟩ := ((grantsSendable_succ hallows (by omega) htried).mp hsends).1.endpoint
      exact hends.left (hends.spent.mpr ⟨hallows, hmore⟩) next hnext
  · obtain ⟨left, rfl⟩ : ∃ left, remaining = left + 1 := ⟨remaining - 1, by omega⟩
    obtain ⟨after, hafter, _⟩ := exists_add (by omega) (selectNext_fresh hnext).1
    have hnumber : call.tried (attempt + 1) = some after := by
      simp only [tried, htried, hnext, hafter]
    rw [hloop, ih left (by omega) true hordinals (by omega) hafter hnumber
      (fun _ => hallows.eligible), grantsSendable_succ hallows (by omega) htried, ← hclones]
    simp only [hclone, true_and]
    constructor
    · rintro ⟨hbody, hrest⟩
      exact ⟨⟨⟨next, hnext⟩, hbody (by omega)⟩, hrest⟩
    · rintro ⟨hsends, hrest⟩
      exact ⟨fun _ => hsends.body, hrest⟩

theorem wasted_executeAttempts (call : Call) :
    wasted call.executeAttempts.2 = 0 ↔ call.GrantsSendable 1 := by
  have hmin : 1 ≤ call.maxAttempts := le_min (by omega) (le_max_left _ _)
  unfold executeAttempts
  cases hfirst : call.selectNext 1 .empty with
  | error cause =>
    -- Nothing is selected, then or later.
    have hnone : ∀ number, 1 ≤ number → call.tried number = none := by
      intro number hle
      induction number, hle using Nat.le_induction with
      | base => simp [tried, hfirst]
      | succ number _ ih => simp [tried, ih]
    refine iff_of_true rfl fun number attempted hle _ _ htried => ?_
    rw [hnone number hle] at htried
    contradiction
  | ok selection =>
    obtain ⟨more, hadd, _⟩ := exists_add (by decide) (selectNext_fresh hfirst).1
    have htried : call.tried 1 = some more := by
      simp only [tried, hfirst, hadd]
    obtain ⟨remaining, hremaining⟩ : ∃ remaining, call.maxAttempts = remaining + 1 :=
      ⟨call.maxAttempts - 1, by omega⟩
    have hattempt : AttemptSet.empty.ordinals.length + 1 = 1 := rfl
    rw [hremaining]
    exact (call.wasted_loop false hattempt (by omega) hadd htried (by omega)).trans
      (and_iff_right (by omega))

end Call

/-- The credits a run removes are 1000 for each retry it sends exactly if every retry that
the world grants can be sent: an endpoint can be selected for it and `GetBody` succeeds.  With
a plan of `Prepare` the former says that an endpoint is untried and not unhealthy. -/
theorem credits_pay_retries_iff (call : Call) :
    (removedCredits call.executeAttempts.1 =
        1000 * ((sent call.executeAttempts.1).length - 1 : Nat) ↔ call.GrantsSendable 1) ∧
    ∀ resource registry owned, call.plan.Serves call.platform resource registry owned →
      ∀ number attempted,
        (call.world number).sequence.toNat + maxWRRSchedule ≤ 2 ^ 64 →
          ((∃ next, call.selectNext number attempted = .ok next) ↔
            ∃ ordinal endpoint,
              call.plan.Open (call.world number).trackers (some attempted) ordinal endpoint) := by
  constructor
  · rw [call.removedCredits_executeAttempts, ← call.wasted_executeAttempts]
    omega
  · intro resource registry owned hserves number attempted hsequence
    exact hserves.selects_iff _ hsequence _ _

/-- The plan that is prepared for an upstream by a new registry. -/
def preparedPlan (platform : Platform) (resource : Upstream) : Option Plan :=
  match (Registry.initial 4).prepareLocked platform ⟨[], []⟩ [resource] with
  | some (_, .candidate ((_, plan) :: _) _ _) => some plan
  | _ => none

/-- A budget with two units, and a call of `Acquire` that nobody disturbs. -/
def soloAcquisition : Acquisition where
  budgets :=
    [⟨100, 10000, 10, 2000, 0, 0⟩, ⟨100, 10000, 10, 2000, 0, 0⟩, ⟨100, 10000, 10, 2000, 1, 0⟩,
      ⟨100, 10000, 10, 2000, 1, 0⟩, ⟨100, 10000, 10, 2000, 1, 1⟩, ⟨100, 10000, 10, 2000, 1, 1⟩]
  granted := true
  removed := 1000
  finished := by decide

/-- A `GET` without a body that its upstream always answers with 503. -/
def unavailableCall (plan : Plan) : Call where
  platform := samplePlatform
  plan := plan
  classify := plainClassifier
  policy := ⟨2, [ascii "GET"], ⟨true, false, false, [503]⟩, ⟨100, 10, 10⟩, second⟩
  request := ⟨ascii "GET", false, false, ⟨⟨[], List.nodup_nil⟩, ascii "10.0.0.1:5000"⟩⟩
  live := true
  world := fun _ =>
    ⟨fun tracker => newEndpointHealth tracker.policy, 0, .ok (),
      ⟨some ⟨503, .empty, some 0⟩, none⟩, true, soloAcquisition⟩

/-- An upgrade that its upstream answers with a bare 101. -/
def bareSwitchCall (plan : Plan) : Call :=
  { unavailableCall plan with
    classify := classifyWebSocketAttempt .asciiOnly id sampleHandshake
    policy := ⟨2, [ascii "GET"], ⟨false, true, false, []⟩, ⟨100, 10, 10⟩, second⟩
    world := fun attempt =>
      { (unavailableCall plan).world attempt with result := ⟨some ⟨101, .empty, some 0⟩, none⟩ } }

/-- The classifier has closed it for a retry that is not made. -/
theorem attempts_transaction_fails :
    (preparedPlan samplePlatform sampleUpstream).map (fun plan =>
      let (events, returned) := (bareSwitchCall plan).executeAttempts
      (discarded events, returned.attempts, returned.response.map Response.status)) =
        some ([1], 1, some 101) := by
  decide +kernel

/-- With one endpoint there is none left for the retry, but its token is gone. -/
theorem credits_pay_retries_fails :
    (preparedPlan samplePlatform sampleUpstream).map (fun plan =>
      let (events, returned) := (unavailableCall plan).executeAttempts
      (removedCredits events, (sent events).length, returned.suppressed)) =
        some (1000, 1, some .noUntriedEndpoint) := by
  decide +kernel

end GGateway.Proxy
