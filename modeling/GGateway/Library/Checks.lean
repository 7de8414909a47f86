import Mathlib.Tactic

/-!
# Chains of checks

A validator is a chain of computations in `Except`, most of which only check.
The lemmas here take such a chain apart: from a successful chain one gets the
success of every link.
-/

namespace GGateway.Library
namespace Checks

universe u v

variable {ε : Type u} {α β : Type v}

/-- Fail unless the condition holds. -/
def require (condition : Bool) (cause : ε) : Except ε Unit :=
  if condition then .ok () else .error cause

@[simp] theorem require_eq_ok {condition : Bool} {cause : ε} {value : Unit} :
    require condition cause = .ok value ↔ condition = true := by
  cases condition <;> simp [require]

/-- The value, or the failure when there is none. -/
def demand {α : Type*} (value : Option α) (cause : ε) : Except ε α :=
  match value with
  | none => .error cause
  | some value => .ok value

@[simp] theorem demand_eq_ok {α : Type*} {value : Option α} {cause : ε} {result : α} :
    demand value cause = .ok result ↔ value = some result := by
  cases value <;> simp [demand]

theorem bind_eq_ok {first : Except ε α} {next : α → Except ε β} {result : β} :
    (first >>= next) = .ok result ↔ ∃ value, first = .ok value ∧ next value = .ok result := by
  cases first with
  | error cause => simp [bind, Except.bind]
  | ok value => simp [bind, Except.bind]

theorem mapError_eq_ok {ε' : Type*} {first : Except ε α} {wrap : ε → ε'} {result : α} :
    first.mapError wrap = .ok result ↔ first = .ok result := by
  cases first <;> simp [Except.mapError]

theorem map_eq_ok {β : Type*} {first : Except ε α} {wrap : α → β} {result : β} :
    first.map wrap = .ok result ↔ ∃ value, first = .ok value ∧ wrap value = result := by
  cases first <;> simp [Except.map]

theorem exists_of_isOk {α : Type*} {result : Except ε α} (h : result.isOk = true) :
    ∃ value, result = .ok value := by
  cases result with
  | ok value => exact ⟨value, rfl⟩
  | error cause => contradiction

/-- The computation succeeds, and its value passes the test. -/
def yields {α : Type*} (result : Except ε α) (test : α → Bool) : Bool :=
  match result with
  | .error _ => false
  | .ok value => test value

theorem exists_of_yields {α : Type*} {result : Except ε α} {test : α → Bool}
    (h : yields result test = true) : ∃ value, result = .ok value ∧ test value = true := by
  cases result with
  | ok value => exact ⟨value, rfl, h⟩
  | error cause => exact absurd h Bool.false_ne_true

end Checks
end GGateway.Library
