import Mathlib.Algebra.BigOperators.Group.List.Basic
import Mathlib.Logic.Relation
import Mathlib.Tactic

/-!
# Transition systems over growing collections

A concurrent program is a function from states and atomic actions to outcomes;
every interleaving is a run.  The objects of the program live in lists that only
grow, and a step replaces one element or appends one, so that a total over the
whole list changes by what that element contributes.
-/

namespace GGateway.Library
namespace Transition

/-- What an action does: it is not possible now, it panics, or it leads to a
state. -/
inductive Outcome (ε σ : Type*) where
  | blocked
  | panicked (cause : ε)
  | next (state : σ)

/-- The action does not panic, and the state it leads to satisfies `P`. -/
def Outcome.Ensures {ε σ : Type*} (P : σ → Prop) : Outcome ε σ → Prop
  | .blocked => True
  | .panicked _ => False
  | .next state => P state

section Runs

variable {σ α ε : Type*} (step : σ → α → Outcome ε σ)

/-- Any interleaving of actions that are possible. -/
def Runs : σ → σ → Prop :=
  Relation.ReflTransGen fun before after => ∃ action, step before action = .next after

/-- Perform the given actions, if each of them is possible. -/
def runAll : List α → σ → Option σ
  | [], state => some state
  | action :: rest, state =>
    match step state action with
    | .next after => runAll rest after
    | _ => none

variable {step}

theorem runs_of_runAll {actions : List α} {start finish : σ}
    (h : runAll step actions start = some finish) : Runs step start finish := by
  induction actions generalizing start with
  | nil =>
    cases h
    exact .refl
  | cons action rest ih =>
    simp only [runAll] at h
    split at h
    · rename_i after hafter
      exact Relation.ReflTransGen.head ⟨action, hafter⟩ (ih h)
    · contradiction

/-- What every step preserves holds along every run. -/
theorem Runs.invariant {P : σ → Prop}
    (hstep : ∀ before action after, P before → step before action = .next after → P after)
    {start finish : σ} (hrun : Runs step start finish) (hstart : P start) : P finish := by
  induction hrun with
  | refl => exact hstart
  | tail _ hlast ih =>
    obtain ⟨action, haction⟩ := hlast
    exact hstep _ action _ ih haction

theorem Runs.ensures {P : σ → Prop} (hstep : ∀ before action, P before →
    (step before action).Ensures P) {start finish : σ} (hrun : Runs step start finish)
    (hstart : P start) : P finish := by
  refine hrun.invariant ?_ hstart
  intro before action after hbefore haction
  have hensures := hstep before action hbefore
  rwa [haction] at hensures

end Runs

/-- Steps that only raise a rank, and that do nothing when they leave it alone, lead
back to the start only if none of them does anything there. -/
theorem foldl_eq_self_iff {σ α β : Type*} [PartialOrder β] {step : σ → α → σ} {rank : σ → β}
    {actions : List α}
    (hraise : ∀ state, ∀ action ∈ actions, rank state ≤ rank (step state action))
    (hidle : ∀ state, ∀ action ∈ actions, rank (step state action) = rank state →
      step state action = state) (state : σ) :
    actions.foldl step state = state ↔ ∀ action ∈ actions, step state action = state := by
  have hmono : ∀ rest : List α, (∀ action ∈ rest, action ∈ actions) → ∀ state,
      rank state ≤ rank (rest.foldl step state) := by
    intro rest
    induction rest with
    | nil => exact fun _ state => le_refl _
    | cons action rest ih =>
      intro hmem state
      have hfirst := hraise state action (hmem action List.mem_cons_self)
      exact hfirst.trans (ih (fun other hother => hmem other (List.mem_cons_of_mem _ hother)) _)
  constructor
  · intro hreturn
    induction actions with
    | nil => simp
    | cons action rest ih =>
      -- The first step cannot raise the rank, since the others do not lower it.
      have hlater := hmono rest (fun other => List.mem_cons_of_mem _) (step state action)
      rw [List.foldl_cons] at hreturn
      rw [hreturn] at hlater
      have hsame : step state action = state :=
        hidle state action List.mem_cons_self
          (le_antisymm hlater (hraise state action List.mem_cons_self))
      rw [hsame] at hreturn
      refine List.forall_mem_cons.mpr ⟨hsame, ih ?_ ?_ ?_ hreturn⟩
      · exact fun state other hother => hraise state other (List.mem_cons_of_mem _ hother)
      · exact fun state other hother => hidle state other (List.mem_cons_of_mem _ hother)
      · intro others hothers
        exact hmono others fun other hother => List.mem_cons_of_mem _ (hothers other hother)
  · intro hfixed
    clear hmono hraise hidle
    induction actions with
    | nil => rfl
    | cons action rest ih =>
      rw [List.foldl_cons, hfixed action List.mem_cons_self]
      exact ih fun other hother => hfixed other (List.mem_cons_of_mem _ hother)

section Collections

variable {α μ : Type*} [AddCommMonoid μ] (f : α → μ)

/-- What a collection contributes in total. -/
def total (objects : List α) : μ :=
  (objects.map f).sum

@[simp] theorem total_nil : total f [] = 0 := rfl

@[simp] theorem total_concat (objects : List α) (added : α) :
    total f (objects ++ [added]) = total f objects + f added := by
  simp [total]

variable {objects : List α} {object : α}

/-- Replacing one object exchanges its contribution for the new one. -/
theorem exists_total_set {index : Nat} (h : objects[index]? = some object) :
    ∃ rest, total f objects = f object + rest ∧
      ∀ changed, total f (objects.set index changed) = f changed + rest := by
  induction objects generalizing index with
  | nil => simp at h
  | cons first others ih =>
    cases index with
    | zero =>
      obtain rfl : first = object := by simpa using h
      exact ⟨total f others, by simp [total], fun changed => by simp [total]⟩
    | succ index =>
      obtain ⟨rest, hbefore, hafter⟩ := ih (by simpa using h)
      refine ⟨f first + rest, ?_, ?_⟩
      · rw [add_left_comm, ← hbefore]
        simp [total]
      · intro changed
        rw [add_left_comm, ← hafter]
        simp [total]

theorem exists_total_of_mem (h : object ∈ objects) : ∃ rest, total f objects = f object + rest := by
  obtain ⟨index, hindex⟩ := List.mem_iff_getElem?.mp h
  obtain ⟨rest, htotal, _⟩ := exists_total_set f hindex
  exact ⟨rest, htotal⟩

variable {f}

theorem total_set_of_eq {index : Nat} {changed : α} (h : objects[index]? = some object)
    (hsame : f changed = f object) : total f (objects.set index changed) = total f objects := by
  obtain ⟨rest, hbefore, hafter⟩ := exists_total_set f h
  rw [hbefore, hafter, hsame]

theorem total_congr {g : α → μ} (h : ∀ object ∈ objects, f object = g object) :
    total f objects = total g objects :=
  congrArg List.sum (List.map_congr_left h)

theorem total_eq_zero (h : ∀ object ∈ objects, f object = 0) : total f objects = 0 := by
  refine List.sum_eq_zero ?_
  intro value hvalue
  obtain ⟨object, hobject, rfl⟩ := List.mem_map.mp hvalue
  exact h object hobject

/-- Among contributions that are not negative, one of them is at most the total. -/
theorem le_total {f : α → Int} (hf : ∀ object, 0 ≤ f object) (h : object ∈ objects) :
    f object ≤ total f objects := by
  refine List.single_le_sum ?_ _ (List.mem_map_of_mem h)
  intro value hvalue
  obtain ⟨source, _, rfl⟩ := List.mem_map.mp hvalue
  exact hf source

end Collections

section Elements

variable {α : Type*} {objects : List α} {index : Nat} {object changed : α}

/-- What holds of all objects still does after one of them is replaced. -/
theorem forall_mem_set {P : α → Prop} (h : ∀ element ∈ objects, P element) (hchanged : P changed) :
    ∀ element ∈ objects.set index changed, P element := by
  intro element helement
  rcases List.mem_or_eq_of_mem_set helement with hmem | rfl
  · exact h element hmem
  · exact hchanged

theorem forall_mem_concat {P : α → Prop} (h : ∀ element ∈ objects, P element)
    (hadded : P changed) : ∀ element ∈ objects ++ [changed], P element := by
  intro element helement
  rcases List.mem_append.mp helement with hmem | hmem
  · exact h element hmem
  · rw [List.mem_singleton.mp hmem]
    exact hadded

end Elements

end Transition
end GGateway.Library
