import GGateway.Library.Transition

/-!
# Unending runs

A program that never stops is a sequence of states with the action that leads from
each to the next.  What must happen is shown with two rules:

* `exists_later_of_rank`: if every time without the event is followed by one of
  smaller rank, then the event happens;
* `exists_common_time`: finitely many events, each of which stays once it has
  happened, have all happened at some time.
-/

namespace GGateway.Library
namespace Liveness

open Transition

section Execution

variable {σ α ε : Type*} {step : σ → α → Outcome ε σ} {states : Nat → σ} {actions : Nat → α}

/-- Each action is possible and leads to the next state. -/
def Execution (step : σ → α → Outcome ε σ) (states : Nat → σ) (actions : Nat → α) : Prop :=
  ∀ time, step (states time) (actions time) = .next (states (time + 1))

theorem Execution.runs (h : Execution step states actions) (time : Nat) :
    Runs step (states 0) (states time) := by
  induction time with
  | zero => exact .refl
  | succ time ih => exact ih.tail ⟨actions time, h time⟩

/-- What can always be continued lasts. -/
theorem exists_execution (step : σ → α → Outcome ε σ) (actions : Nat → α)
    {P : Nat → σ → Prop} {start : σ} (hstart : P 0 start)
    (hstep : ∀ time state, P time state →
      ∃ next, step state (actions time) = .next next ∧ P (time + 1) next) :
    ∃ states : Nat → σ, states 0 = start ∧ Execution step states actions ∧
      ∀ time, P time (states time) := by
  classical
  choose! follow hfollow using hstep
  let states : Nat → σ := fun time => Nat.rec start (fun time state => follow time state) time
  have hholds : ∀ time, P time (states time) := by
    intro time
    induction time with
    | zero => exact hstart
    | succ time ih => exact (hfollow time _ ih).2
  exact ⟨states, rfl, fun time => (hfollow time _ (hholds time)).1, hholds⟩

end Execution

theorem exists_later_of_rank {first : Nat} {Q : Nat → Prop} (rank : Nat → Nat)
    (hdrop : ∀ time, first ≤ time → ¬ Q time →
      ∃ later, time ≤ later ∧ rank later < rank time) :
    ∃ time, first ≤ time ∧ Q time := by
  by_contra hnever
  -- Without the event the rank would fall forever.
  have habsurd : ∀ bound time, first ≤ time → rank time = bound → False := by
    intro bound
    induction bound using Nat.strong_induction_on with
    | _ bound ih =>
      intro time htime hrank
      obtain ⟨later, hlater, hless⟩ := hdrop time htime fun hevent => hnever ⟨time, htime, hevent⟩
      exact ih (rank later) (hrank ▸ hless) later (htime.trans hlater) rfl
  exact habsurd (rank first) first le_rfl rfl

theorem exists_common_time {β : Type*} {first : Nat} {Q : β → Nat → Prop} (items : List β)
    (hstable : ∀ item ∈ items, ∀ time, first ≤ time → Q item time → Q item (time + 1))
    (hevent : ∀ item ∈ items, ∃ time, first ≤ time ∧ Q item time) :
    ∃ time, first ≤ time ∧ ∀ item ∈ items, Q item time := by
  induction items with
  | nil => exact ⟨first, le_rfl, by simp⟩
  | cons item rest ih =>
    obtain ⟨time, htime, hitem⟩ := hevent item List.mem_cons_self
    obtain ⟨other, hother, hrest⟩ := ih
      (fun found hfound => hstable found (List.mem_cons_of_mem _ hfound))
      (fun found hfound => hevent found (List.mem_cons_of_mem _ hfound))
    have hstays : ∀ found ∈ item :: rest, ∀ start, first ≤ start → Q found start →
        ∀ later, start ≤ later → Q found later := by
      intro found hfound start hstart hholds later hlater
      induction later, hlater using Nat.le_induction with
      | base => exact hholds
      | succ later hlater ih => exact hstable found hfound later (hstart.trans hlater) ih
    refine ⟨max time other, htime.trans (le_max_left _ _), ?_⟩
    intro found hfound
    rcases List.mem_cons.mp hfound with rfl | hmem
    · exact hstays found hfound time htime hitem _ (le_max_left _ _)
    · exact hstays found hfound other hother (hrest found hmem) _ (le_max_right _ _)

end Liveness
end GGateway.Library
