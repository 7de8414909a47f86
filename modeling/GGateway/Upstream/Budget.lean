import GGateway.Library.Transition
import GGateway.Model.Resources

/-!
# The retry budget

`internal/upstream/budget.go`: a bucket of fixed-point credits and a count of
retries in flight, both atomic words that any number of calls change by
compare-and-swap loops.  A call is modelled by where it is between two accesses,
with the values it has loaded, so that a loaded value may be out of date when the
swap comes.  Words have the width of the source; that none of them wraps is proved.
-/

namespace GGateway.Upstream

open Model Library.Transition

def retryCreditUnit : UInt64 := 1000

structure RetryBudget where
  ratio : UInt64
  maxCredits : UInt64
  maxInflight : UInt32
  credits : UInt64
  inflight : UInt32
  maxObserved : UInt32
  deriving DecidableEq, Repr

variable (policy : RetryBudgetPolicy)

def newRetryBudget : RetryBudget where
  ratio := policy.ratioPer1000.toUInt64
  maxCredits := policy.burst.toUInt64 * retryCreditUnit
  maxInflight := policy.maxInflight.toUInt32
  credits := 0
  inflight := 0
  maxObserved := 0

/-! ## Calls -/

/-- Where a call of `CreditPrimary` or `Acquire` is.  A granted call is `holding`
its permit until `Release` marks it, and `releasing` until the slot is returned. -/
inductive BudgetCall where
  | creditLoad
  | creditSwap (current : UInt64)
  | saturated
  | credited
  | inflightLoad
  | inflightSwap (current : UInt32)
  | observeLoad (value : UInt32)
  | observeSwap (value current : UInt32)
  | tokenLoad
  | tokenSwap (current : UInt64)
  | refunding
  | refused
  | holding
  | releasing
  | released
  deriving DecidableEq, Repr

variable (budget : RetryBudget)

/-- `inflight.Add(^uint32(0))`. -/
def RetryBudget.returnSlot : RetryBudget :=
  { budget with inflight := budget.inflight + ~~~(0 : UInt32) }

/-- The credits after one primary request. -/
def RetryBudget.raised (current : UInt64) : UInt64 :=
  if budget.maxCredits < current + budget.ratio then budget.maxCredits
  else current + budget.ratio

/-- One atomic access of a call; `none` when the call has returned. -/
def BudgetCall.step : BudgetCall → Option (RetryBudget × BudgetCall)
  | .creditLoad =>
    if budget.maxCredits ≤ budget.credits then some (budget, .saturated)
    else some (budget, .creditSwap budget.credits)
  | .creditSwap current =>
    if budget.credits = current then
      some ({ budget with credits := budget.raised current }, .credited)
    else some (budget, .creditLoad)
  | .inflightLoad =>
    if budget.maxInflight ≤ budget.inflight then some (budget, .refused)
    else some (budget, .inflightSwap budget.inflight)
  | .inflightSwap current =>
    if budget.inflight = current then
      some ({ budget with inflight := current + 1 }, .observeLoad (current + 1))
    else some (budget, .inflightLoad)
  | .observeLoad value =>
    if value ≤ budget.maxObserved then some (budget, .tokenLoad)
    else some (budget, .observeSwap value budget.maxObserved)
  | .observeSwap value current =>
    if budget.maxObserved = current then
      some ({ budget with maxObserved := value }, .tokenLoad)
    else some (budget, .observeLoad value)
  | .tokenLoad =>
    if budget.credits < retryCreditUnit then some (budget, .refunding)
    else some (budget, .tokenSwap budget.credits)
  | .tokenSwap current =>
    if budget.credits = current then
      some ({ budget with credits := current - retryCreditUnit }, .holding)
    else some (budget, .tokenLoad)
  | .refunding => some (budget.returnSlot, .refused)
  | .releasing => some (budget.returnSlot, .released)
  | .saturated | .credited | .refused | .holding | .released => none

/-! ## Runs -/

/-- The panics of `Release`. -/
inductive BudgetPanic where
  | invalidPermit
  | releasedTwice
  deriving DecidableEq, Repr

structure BudgetWorld where
  budget : RetryBudget
  calls : List BudgetCall
  deriving DecidableEq, Repr

inductive BudgetAction where
  | creditPrimary
  | acquire
  | advance (call : Nat)
  | release (call : Nat)

def BudgetWorld.initial : BudgetWorld :=
  ⟨newRetryBudget policy, []⟩

/-- The first access of `Release` swaps the mark of the permit. -/
def BudgetWorld.release (world : BudgetWorld) (index : Nat) : Outcome BudgetPanic BudgetWorld :=
  match world.calls[index]? with
  | some .holding => .next { world with calls := world.calls.set index .releasing }
  | some .releasing | some .released => .panicked .releasedTwice
  | some .refused => .panicked .invalidPermit
  | _ => .blocked

def BudgetWorld.step (world : BudgetWorld) : BudgetAction → Outcome BudgetPanic BudgetWorld
  | .creditPrimary => .next { world with calls := world.calls ++ [.creditLoad] }
  | .acquire => .next { world with calls := world.calls ++ [.inflightLoad] }
  | .advance index =>
    match (world.calls[index]?).bind (BudgetCall.step world.budget) with
    | none => .blocked
    | some (budget, call) => .next ⟨budget, world.calls.set index call⟩
  | .release index => world.release index

def BudgetWorld.Reachable (world : BudgetWorld) : Prop :=
  Runs BudgetWorld.step (BudgetWorld.initial policy) world

/-! ## What is counted -/

/-- The slots that a call has taken and not yet returned. -/
def BudgetCall.slots : BudgetCall → Nat
  | .observeLoad _ | .observeSwap _ _ | .tokenLoad | .tokenSwap _ | .refunding | .holding
  | .releasing => 1
  | _ => 0

/-- Permits that were granted, whether or not they have been released. -/
def BudgetCall.grants : BudgetCall → Nat
  | .holding | .releasing | .released => 1
  | _ => 0

/-- Permits that were granted and whose release has not finished. -/
def BudgetCall.held : BudgetCall → Nat
  | .holding | .releasing => 1
  | _ => 0

/-- Primaries that have raised the credits. -/
def BudgetCall.primaries : BudgetCall → Nat
  | .credited => 1
  | _ => 0

/-- Neither in progress nor holding a permit. -/
def BudgetCall.settled : BudgetCall → Bool
  | .saturated | .credited | .refused | .released => true
  | _ => false

/-- What a loaded value was checked against. -/
def BudgetCall.Checked : BudgetCall → Prop
  | .creditSwap current => current < budget.maxCredits
  | .inflightSwap current => current < budget.maxInflight
  | .tokenSwap current => retryCreditUnit ≤ current
  | _ => True

/-- The bounds of the policy, as the budget stores them. -/
structure RetryBudget.Fits (budget : RetryBudget) (policy : RetryBudgetPolicy) : Prop where
  ratio : budget.ratio.toNat = policy.ratioPer1000.toNat
  maxCredits : budget.maxCredits.toNat = 1000 * policy.burst.toNat
  maxInflight : budget.maxInflight.toNat = policy.maxInflight.toNat

/-- Slots and credits are what the calls account for. -/
structure BudgetWorld.Sound (policy : RetryBudgetPolicy) (world : BudgetWorld) : Prop where
  fits : world.budget.Fits policy
  checked : ∀ call ∈ world.calls, call.Checked world.budget
  slots : world.budget.inflight.toNat = total BudgetCall.slots world.calls
  inflight : world.budget.inflight.toNat ≤ policy.maxInflight.toNat
  credits : world.budget.credits.toNat ≤ 1000 * policy.burst.toNat
  paid : 1000 * total BudgetCall.grants world.calls + world.budget.credits.toNat ≤
    policy.ratioPer1000.toNat * total BudgetCall.primaries world.calls

/-! ## Words -/

theorem RetryBudget.fits_new :
    (newRetryBudget policy).Fits policy := by
  have hburst : policy.burst.toNat < 65536 := policy.burst.toNat_lt
  have hunit : retryCreditUnit.toNat = 1000 := rfl
  refine ⟨rfl, ?_, rfl⟩
  show (policy.burst.toUInt64 * retryCreditUnit).toNat = _
  rw [UInt64.toNat_mul, hunit, UInt16.toNat_toUInt64]
  omega

@[simp] theorem RetryBudget.returnSlot_ratio :
    budget.returnSlot.ratio = budget.ratio := by rw [RetryBudget.returnSlot]

@[simp] theorem RetryBudget.returnSlot_maxCredits :
    budget.returnSlot.maxCredits = budget.maxCredits := by rw [RetryBudget.returnSlot]

@[simp] theorem RetryBudget.returnSlot_maxInflight :
    budget.returnSlot.maxInflight = budget.maxInflight := by rw [RetryBudget.returnSlot]

@[simp] theorem RetryBudget.returnSlot_credits :
    budget.returnSlot.credits = budget.credits := by rw [RetryBudget.returnSlot]

variable {budget : RetryBudget} {call after : BudgetCall} {action : BudgetAction}

/-- Returning a slot that was taken does not wrap. -/
theorem RetryBudget.inflight_returnSlot (h : 1 ≤ budget.inflight.toNat) :
    budget.returnSlot.inflight.toNat = budget.inflight.toNat - 1 := by
  have hones : (~~~(0 : UInt32)).toNat = 4294967295 := rfl
  have hlt := budget.inflight.toNat_lt
  rw [RetryBudget.returnSlot, UInt32.toNat_add, hones]
  omega

/-- Raising the credits adds at most the ratio, and stays below the cap. -/
theorem RetryBudget.toNat_raised {policy : RetryBudgetPolicy} (h : budget.Fits policy)
    {current : UInt64} (hcurrent : current < budget.maxCredits) :
    (budget.raised current).toNat ≤ current.toNat + policy.ratioPer1000.toNat ∧
      (budget.raised current).toNat ≤ 1000 * policy.burst.toNat := by
  have hburst : policy.burst.toNat < 65536 := policy.burst.toNat_lt
  have hratio : policy.ratioPer1000.toNat < 65536 := policy.ratioPer1000.toNat_lt
  have hcap := h.maxCredits
  have hadd := h.ratio
  have hsum : (current + budget.ratio).toNat = current.toNat + policy.ratioPer1000.toNat := by
    rw [UInt64.lt_iff_toNat_lt] at hcurrent
    rw [UInt64.toNat_add, hadd]
    omega
  unfold RetryBudget.raised
  split_ifs with hover
  · rw [UInt64.lt_iff_toNat_lt] at hover
    omega
  · rw [UInt64.lt_iff_toNat_lt] at hover
    omega

/-! ## One access -/

/-- What one access of a call changes. -/
structure BudgetCall.Effect (policy : RetryBudgetPolicy) (budget : RetryBudget) (call : BudgetCall)
    (next : RetryBudget) (after : BudgetCall) : Prop where
  fits : next.Fits policy
  limits : next.maxCredits = budget.maxCredits ∧ next.maxInflight = budget.maxInflight
  checked : after.Checked next
  slots : next.inflight.toNat + call.slots = budget.inflight.toNat + after.slots
  inflight : next.inflight.toNat ≤ policy.maxInflight.toNat
  credits : next.credits.toNat ≤ 1000 * policy.burst.toNat
  paid : 1000 * after.grants + next.credits.toNat +
      policy.ratioPer1000.toNat * call.primaries ≤
    1000 * call.grants + budget.credits.toNat + policy.ratioPer1000.toNat * after.primaries

section Access

variable {policy : RetryBudgetPolicy} {budget : RetryBudget}

section Effects

variable (hfits : budget.Fits policy)

include hfits

/-- An access that only loads. -/
theorem BudgetCall.Effect.load
    (hinflight : budget.inflight.toNat ≤ policy.maxInflight.toNat)
    (hcredits : budget.credits.toNat ≤ 1000 * policy.burst.toNat)
    (hchecked : after.Checked budget) (hslots : after.slots = call.slots)
    (hgrants : after.grants = call.grants) (hprimaries : after.primaries = call.primaries) :
    call.Effect policy budget budget after := by
  refine ⟨hfits, ⟨rfl, rfl⟩, hchecked, by rw [hslots], hinflight, hcredits, ?_⟩
  rw [hgrants, hprimaries]

/-- Returning a slot, by a refused acquisition or by a release. -/
theorem BudgetCall.Effect.returnSlot
    (hinflight : budget.inflight.toNat ≤ policy.maxInflight.toNat)
    (hcredits : budget.credits.toNat ≤ 1000 * policy.burst.toNat)
    (htaken : 1 ≤ budget.inflight.toNat) (hslots : call.slots = 1) (hreturned : after.slots = 0)
    (hchecked : after.Checked budget.returnSlot) (hgrants : after.grants = call.grants)
    (hprimaries : after.primaries = call.primaries) :
    call.Effect policy budget budget.returnSlot after := by
  have hnext := RetryBudget.inflight_returnSlot htaken
  refine ⟨⟨?_, ?_, ?_⟩, ⟨by simp, by simp⟩, hchecked, ?_, ?_, ?_, ?_⟩
  · rw [RetryBudget.returnSlot_ratio, hfits.ratio]
  · rw [RetryBudget.returnSlot_maxCredits, hfits.maxCredits]
  · rw [RetryBudget.returnSlot_maxInflight, hfits.maxInflight]
  · omega
  · omega
  · rwa [RetryBudget.returnSlot_credits]
  · rw [hgrants, hprimaries, RetryBudget.returnSlot_credits]

/-- A slot is taken only below the limit. -/
theorem BudgetCall.Effect.takeSlot
    (hcredits : budget.credits.toNat ≤ 1000 * policy.burst.toNat)
    (hbelow : budget.inflight < budget.maxInflight) :
    (BudgetCall.inflightSwap budget.inflight).Effect policy budget
      { budget with inflight := budget.inflight + 1 } (.observeLoad (budget.inflight + 1)) := by
  have hone : (1 : UInt32).toNat = 1 := rfl
  have hlimit := hfits.maxInflight
  have hsmall : policy.maxInflight.toNat < 65536 := policy.maxInflight.toNat_lt
  have hnext : (budget.inflight + 1).toNat = budget.inflight.toNat + 1 := by
    rw [UInt32.lt_iff_toNat_lt] at hbelow
    rw [UInt32.toNat_add, hone]
    omega
  rw [UInt32.lt_iff_toNat_lt] at hbelow
  refine ⟨⟨hfits.ratio, hfits.maxCredits, hfits.maxInflight⟩, ⟨rfl, rfl⟩, trivial, ?_, ?_,
    hcredits, le_rfl⟩
  · exact congrArg (· + 0) hnext
  · rw [hnext]
    omega

/-- A permit costs one unit of credits, which are there. -/
theorem BudgetCall.Effect.takeToken
    (hinflight : budget.inflight.toNat ≤ policy.maxInflight.toNat)
    (hcredits : budget.credits.toNat ≤ 1000 * policy.burst.toNat)
    (hthere : retryCreditUnit ≤ budget.credits) :
    (BudgetCall.tokenSwap budget.credits).Effect policy budget
      { budget with credits := budget.credits - retryCreditUnit } .holding := by
  have hunit : retryCreditUnit.toNat = 1000 := rfl
  have hnext := UInt64.toNat_sub_of_le _ _ hthere
  rw [UInt64.le_iff_toNat_le] at hthere
  refine ⟨⟨hfits.ratio, hfits.maxCredits, hfits.maxInflight⟩, ⟨rfl, rfl⟩, trivial, rfl, hinflight,
    ?_, ?_⟩
  · show (budget.credits - retryCreditUnit).toNat ≤ _
    omega
  · simp only [BudgetCall.grants, BudgetCall.primaries]
    omega

theorem BudgetCall.Effect.credit
    (hinflight : budget.inflight.toNat ≤ policy.maxInflight.toNat)
    (hbelow : budget.credits < budget.maxCredits) :
    (BudgetCall.creditSwap budget.credits).Effect policy budget
      { budget with credits := budget.raised budget.credits } .credited := by
  obtain ⟨hadded, hcap⟩ := RetryBudget.toNat_raised hfits hbelow
  refine ⟨⟨hfits.ratio, hfits.maxCredits, hfits.maxInflight⟩, ⟨rfl, rfl⟩, trivial, rfl, hinflight,
    hcap, ?_⟩
  simp only [BudgetCall.grants, BudgetCall.primaries]
  omega

/-- Every access has an effect of this kind. -/
theorem BudgetCall.effect_of_step
    (hinflight : budget.inflight.toNat ≤ policy.maxInflight.toNat)
    (hcredits : budget.credits.toNat ≤ 1000 * policy.burst.toNat) {next : RetryBudget}
    (hchecked : call.Checked budget) (htaken : call.slots ≤ budget.inflight.toNat)
    (hstep : call.step budget = some (next, after)) : call.Effect policy budget next after := by
  cases call with
  | creditLoad =>
    simp only [BudgetCall.step] at hstep
    split_ifs at hstep with hfull
    · cases hstep
      exact .load hfits hinflight hcredits trivial rfl rfl rfl
    · cases hstep
      exact .load hfits hinflight hcredits (UInt64.not_le.mp hfull) rfl rfl rfl
  | creditSwap current =>
    simp only [BudgetCall.step] at hstep
    split_ifs at hstep with hsame
    · cases hstep
      subst hsame
      exact .credit hfits hinflight hchecked
    · cases hstep
      exact .load hfits hinflight hcredits trivial rfl rfl rfl
  | inflightLoad =>
    simp only [BudgetCall.step] at hstep
    split_ifs at hstep with hfull
    · cases hstep
      exact .load hfits hinflight hcredits trivial rfl rfl rfl
    · cases hstep
      exact .load hfits hinflight hcredits (UInt32.not_le.mp hfull) rfl rfl rfl
  | inflightSwap current =>
    simp only [BudgetCall.step] at hstep
    split_ifs at hstep with hsame
    · cases hstep
      subst hsame
      exact .takeSlot hfits hcredits hchecked
    · cases hstep
      exact .load hfits hinflight hcredits trivial rfl rfl rfl
  | observeLoad value =>
    simp only [BudgetCall.step] at hstep
    split_ifs at hstep <;> obtain ⟨rfl, rfl⟩ := Prod.mk.inj (Option.some.inj hstep) <;>
      exact .load hfits hinflight hcredits trivial rfl rfl rfl
  | observeSwap value current =>
    simp only [BudgetCall.step] at hstep
    split_ifs at hstep
    · cases hstep
      exact ⟨⟨hfits.ratio, hfits.maxCredits, hfits.maxInflight⟩, ⟨rfl, rfl⟩, trivial, rfl,
        hinflight, hcredits, le_rfl⟩
    · cases hstep
      exact .load hfits hinflight hcredits trivial rfl rfl rfl
  | tokenLoad =>
    simp only [BudgetCall.step] at hstep
    split_ifs at hstep with hempty
    · cases hstep
      exact .load hfits hinflight hcredits trivial rfl rfl rfl
    · cases hstep
      exact .load hfits hinflight hcredits (UInt64.not_lt.mp hempty) rfl rfl rfl
  | tokenSwap current =>
    simp only [BudgetCall.step] at hstep
    split_ifs at hstep with hsame
    · cases hstep
      subst hsame
      exact .takeToken hfits hinflight hcredits hchecked
    · cases hstep
      exact .load hfits hinflight hcredits trivial rfl rfl rfl
  | refunding =>
    cases hstep
    exact .returnSlot hfits hinflight hcredits htaken rfl rfl trivial rfl rfl
  | releasing =>
    cases hstep
    exact .returnSlot hfits hinflight hcredits htaken rfl rfl trivial rfl rfl
  | saturated | credited | refused | holding | released => simp [BudgetCall.step] at hstep

end Effects

end Access

/-! ## Whole runs -/

section Runs

variable {policy : RetryBudgetPolicy} {world next : BudgetWorld}

theorem BudgetCall.Checked.of_limits {other : RetryBudget} (h : call.Checked budget)
    (hlimits : other.maxCredits = budget.maxCredits ∧ other.maxInflight = budget.maxInflight) :
    call.Checked other := by
  cases call with
  | creditSwap current =>
    show current < other.maxCredits
    rw [hlimits.1]
    exact h
  | inflightSwap current =>
    show current < other.maxInflight
    rw [hlimits.2]
    exact h
  | _ => exact h

theorem BudgetWorld.sound_initial (policy : RetryBudgetPolicy) :
    (BudgetWorld.initial policy).Sound policy := by
  refine ⟨RetryBudget.fits_new policy, ?_, rfl, Nat.zero_le _, Nat.zero_le _, Nat.zero_le _⟩
  simp [BudgetWorld.initial]

theorem BudgetWorld.Sound.advance (h : world.Sound policy) {index : Nat}
    (hcall : world.calls[index]? = some call)
    (hstep : call.step world.budget = some (budget, after)) :
    (BudgetWorld.mk budget (world.calls.set index after)).Sound policy := by
  -- The other calls contribute the same `rest` to every sum before and after.
  obtain ⟨slots, hslots, hslots'⟩ := exists_total_set BudgetCall.slots hcall
  obtain ⟨grants, hgrants, hgrants'⟩ := exists_total_set BudgetCall.grants hcall
  obtain ⟨primaries, hprimaries, hprimaries'⟩ := exists_total_set BudgetCall.primaries hcall
  have hsum := h.slots
  have hpaid := h.paid
  rw [hslots] at hsum
  rw [hgrants, hprimaries, Nat.mul_add, Nat.mul_add] at hpaid
  have heffect := BudgetCall.effect_of_step h.fits h.inflight h.credits
    (h.checked call (List.mem_of_getElem? hcall)) (by omega) hstep
  have hslot := heffect.slots
  have hpay := heffect.paid
  refine ⟨heffect.fits, ?_, ?_, heffect.inflight, heffect.credits, ?_⟩
  · refine forall_mem_set ?_ heffect.checked
    exact fun other hother => (h.checked other hother).of_limits heffect.limits
  · dsimp only
    rw [hslots']
    omega
  · dsimp only
    rw [hgrants', hprimaries', Nat.mul_add, Nat.mul_add]
    omega

/-- Exchanging one call for another that accounts for the same. -/
theorem BudgetWorld.Sound.exchange (h : world.Sound policy) {index : Nat}
    (hcall : world.calls[index]? = some call) (hchecked : after.Checked world.budget)
    (hslots : after.slots = call.slots) (hgrants : after.grants = call.grants)
    (hprimaries : after.primaries = call.primaries) :
    (BudgetWorld.mk world.budget (world.calls.set index after)).Sound policy := by
  refine ⟨h.fits, forall_mem_set h.checked hchecked, ?_, h.inflight, h.credits, ?_⟩
  · rw [total_set_of_eq hcall hslots]
    exact h.slots
  · rw [total_set_of_eq hcall hgrants, total_set_of_eq hcall hprimaries]
    exact h.paid

theorem BudgetWorld.Sound.begin (h : world.Sound policy) (hchecked : call.Checked world.budget)
    (hslots : call.slots = 0) (hgrants : call.grants = 0) (hprimaries : call.primaries = 0) :
    (BudgetWorld.mk world.budget (world.calls ++ [call])).Sound policy := by
  refine ⟨h.fits, forall_mem_concat h.checked hchecked, ?_, h.inflight, h.credits, ?_⟩
  · rw [total_concat, hslots]
    exact h.slots
  · rw [total_concat, total_concat, hgrants, hprimaries]
    exact h.paid

/-- The result of an action, if it is not a panic. -/
theorem BudgetWorld.step_cases (hstep : world.step action = .next next) :
    (∃ call, (call = .creditLoad ∨ call = .inflightLoad) ∧
        next = ⟨world.budget, world.calls ++ [call]⟩) ∨
      (∃ index call budget after, world.calls[index]? = some call ∧
        call.step world.budget = some (budget, after) ∧
        next = ⟨budget, world.calls.set index after⟩) ∨
      ∃ index, world.calls[index]? = some .holding ∧
        next = ⟨world.budget, world.calls.set index .releasing⟩ := by
  cases action with
  | creditPrimary => exact Or.inl ⟨.creditLoad, Or.inl rfl, (Outcome.next.inj hstep).symm⟩
  | acquire => exact Or.inl ⟨.inflightLoad, Or.inr rfl, (Outcome.next.inj hstep).symm⟩
  | advance index =>
    simp only [BudgetWorld.step] at hstep
    split at hstep
    · contradiction
    rename_i budget after hadvance
    obtain ⟨call, hcall, hcallStep⟩ := Option.bind_eq_some_iff.mp hadvance
    exact Or.inr (Or.inl ⟨index, call, budget, after, hcall, hcallStep,
      (Outcome.next.inj hstep).symm⟩)
  | release index =>
    simp only [BudgetWorld.step, BudgetWorld.release] at hstep
    split at hstep <;> try contradiction
    rename_i hholding
    exact Or.inr (Or.inr ⟨index, hholding, (Outcome.next.inj hstep).symm⟩)

theorem BudgetWorld.Sound.step (h : world.Sound policy) (hstep : world.step action = .next next) :
    next.Sound policy := by
  rcases BudgetWorld.step_cases hstep with ⟨call, rfl | rfl, rfl⟩ |
    ⟨index, call, budget, after, hcall, hcallStep, rfl⟩ | ⟨index, hholding, rfl⟩
  · exact h.begin trivial rfl rfl rfl
  · exact h.begin trivial rfl rfl rfl
  · exact h.advance hcall hcallStep
  · exact h.exchange hholding trivial rfl rfl rfl

theorem BudgetWorld.Reachable.sound (h : world.Reachable policy) : world.Sound policy :=
  Runs.invariant (fun _ _ _ hbefore hstep => hbefore.step hstep) h
    (BudgetWorld.sound_initial policy)

/-- A step moves the number of slots by at most one. -/
theorem BudgetWorld.slots_step (hstep : world.step action = .next next) :
    total BudgetCall.slots next.calls ≤ total BudgetCall.slots world.calls + 1 ∧
      total BudgetCall.slots world.calls ≤ total BudgetCall.slots next.calls + 1 := by
  have hone : ∀ call : BudgetCall, call.slots ≤ 1 := by
    intro call
    cases call <;> first | exact Nat.le_refl _ | exact Nat.zero_le _
  rcases BudgetWorld.step_cases hstep with ⟨call, _, rfl⟩ |
    ⟨index, call, budget, after, hcall, _, rfl⟩ | ⟨index, hholding, rfl⟩
  · have hcall := hone call
    rw [total_concat]
    omega
  · obtain ⟨rest, hbefore, hafter⟩ := exists_total_set BudgetCall.slots hcall
    have hcall' := hone call
    have hafter' := hone after
    rw [hbefore, hafter]
    omega
  · have hsame : BudgetCall.slots .releasing = BudgetCall.slots .holding := rfl
    rw [total_set_of_eq hholding hsame]
    omega

/-- A step that grants a permit takes a whole unit of credits. -/
theorem BudgetWorld.grants_step (h : world.Sound policy) (hstep : world.step action = .next next)
    (hgranted : total BudgetCall.grants world.calls < total BudgetCall.grants next.calls) :
    1000 ≤ world.budget.credits.toNat := by
  rcases BudgetWorld.step_cases hstep with ⟨call, rfl | rfl, rfl⟩ |
    ⟨index, call, budget, after, hcall, hcallStep, rfl⟩ | ⟨index, hholding, rfl⟩
  · simp [BudgetCall.grants] at hgranted
  · simp [BudgetCall.grants] at hgranted
  · obtain ⟨rest, hbefore, hafter⟩ := exists_total_set BudgetCall.grants hcall
    rw [hbefore, hafter] at hgranted
    have hchecked := h.checked call (List.mem_of_getElem? hcall)
    cases call with
    | tokenSwap current =>
      simp only [BudgetCall.step] at hcallStep
      split_ifs at hcallStep with hsame
      · have hthere : retryCreditUnit ≤ current := hchecked
        rw [hsame]
        exact UInt64.le_iff_toNat_le.mp hthere
      · cases hcallStep
        simp [BudgetCall.grants] at hgranted
    | refunding =>
      cases hcallStep
      simp [BudgetCall.grants] at hgranted
    | releasing =>
      cases hcallStep
      simp [BudgetCall.grants] at hgranted
    | saturated | credited | refused | holding | released =>
      simp [BudgetCall.step] at hcallStep
    | _ =>
      simp only [BudgetCall.step] at hcallStep
      split_ifs at hcallStep <;>
        obtain ⟨_, rfl⟩ := Prod.mk.inj (Option.some.inj hcallStep) <;>
        simp [BudgetCall.grants] at hgranted
  · have hsame : BudgetCall.grants .releasing = BudgetCall.grants .holding := rfl
    rw [total_set_of_eq hholding hsame] at hgranted
    omega

end Runs

/-- In every interleaving: the credits stay within the burst; the slots taken stay
within the limit, and no step moves their number by more than one, so it never
wraps; every granted permit that is not released holds a slot; without calls in
progress and with every permit released no slot is taken; every permit was paid for
by the ratio of the primaries; and a permit is granted only when a whole unit of
credits is there. -/
theorem retry_budget_safe (policy : RetryBudgetPolicy) (world : BudgetWorld)
    (h : world.Reachable policy) :
    world.budget.credits.toNat ≤ 1000 * policy.burst.toNat ∧
    world.budget.inflight.toNat ≤ policy.maxInflight.toNat ∧
    total BudgetCall.held world.calls ≤ world.budget.inflight.toNat ∧
    ((∀ call ∈ world.calls, call.settled = true) → world.budget.inflight = 0) ∧
    1000 * total BudgetCall.grants world.calls + world.budget.credits.toNat ≤
      policy.ratioPer1000.toNat * total BudgetCall.primaries world.calls ∧
    ∀ action next, world.step action = .next next →
      next.budget.inflight.toNat ≤ world.budget.inflight.toNat + 1 ∧
      world.budget.inflight.toNat ≤ next.budget.inflight.toNat + 1 ∧
      (total BudgetCall.grants world.calls < total BudgetCall.grants next.calls →
        1000 ≤ world.budget.credits.toNat) := by
  have hsound := h.sound
  refine ⟨hsound.credits, hsound.inflight, ?_, ?_, hsound.paid, ?_⟩
  · rw [hsound.slots]
    apply List.sum_le_sum
    intro call _
    cases call <;> first | exact Nat.le_refl _ | exact Nat.zero_le _
  · intro hsettled
    have hnone : total BudgetCall.slots world.calls = 0 := by
      apply total_eq_zero
      intro call hcall
      have hdone := hsettled call hcall
      cases call <;> simp [BudgetCall.settled] at hdone <;> rfl
    apply UInt32.toNat_inj.mp
    rw [hsound.slots, hnone]
    rfl
  · intro action next hstep
    obtain ⟨hup, hdown⟩ := BudgetWorld.slots_step hstep
    have hnext := (hsound.step hstep).slots
    have hbefore := hsound.slots
    exact ⟨by omega, by omega, BudgetWorld.grants_step hsound hstep⟩

/-- One primary pays for one retry, and the permit is then released. -/
theorem retry_budget_safe_one_retry :
    ∃ world : BudgetWorld, world.Reachable ⟨1000, 1, 1⟩ ∧
      world.calls = [.credited, .released] ∧ world.budget.inflight = 0 ∧
      1000 * total BudgetCall.grants world.calls + world.budget.credits.toNat ≤
        1000 * total BudgetCall.primaries world.calls := by
  have hrun : runAll BudgetWorld.step ([.creditPrimary, .advance 0, .advance 0, .acquire] ++
      List.replicate 6 (.advance 1) ++ [.release 1, .advance 1])
      (BudgetWorld.initial ⟨1000, 1, 1⟩) =
      some ⟨⟨1000, 1000, 1, 0, 0, 1⟩, [.credited, .released]⟩ := by
    decide +kernel
  have hreach : BudgetWorld.Reachable ⟨1000, 1, 1⟩ _ := runs_of_runAll hrun
  obtain ⟨_, _, _, hidle, hpaid, _⟩ := retry_budget_safe _ _ hreach
  exact ⟨_, hreach, rfl, hidle (by simp [BudgetCall.settled]), hpaid⟩

end GGateway.Upstream
