import Mathlib.Data.Finset.Basic
import Mathlib.Data.Finset.Union
import Mathlib.Data.List.Sort
import Mathlib.Tactic

/-!
# Search with an incumbent

A search goes through candidates in some order and keeps the best hit so far.
A candidate whose key does not exceed the incumbent's is not examined at all;
examining one may fail, may be a hit, or may be a miss that contributes to a
gathered set.  The order in which candidates come is arbitrary, so what the
search returns has to be characterised without it: `Summary` says what the state
knows about everything passed so far.
-/

namespace GGateway.Library
namespace Incumbent

/-- What an examined candidate turns out to be. -/
inductive Verdict (ω μ : Type*) where
  | pass
  | miss (gathered : Finset μ)
  | hit (winner : ω)

/-- The incumbent, and what the misses contributed. -/
structure State (ω μ : Type*) where
  found : Option ω
  gathered : Finset μ

variable {α κ ω μ ε : Type*} [LinearOrder κ]

/-- The search has neither an incumbent nor a miss. -/
def State.start : State ω μ :=
  ⟨none, ∅⟩

/-- The incumbent makes a candidate with this key pointless. -/
def State.beats (rank : ω → κ) (state : State ω μ) (key : κ) : Bool :=
  state.found.any fun winner => decide (key ≤ rank winner)

variable {state : State ω μ} {passed : List α} {candidate : α}

theorem beats_of_le {rank : ω → κ} {low high : κ} (hle : low ≤ high)
    (h : state.beats rank high = true) : state.beats rank low = true := by
  cases hfound : state.found with
  | none => simp [State.beats, hfound] at h
  | some winner =>
    simp only [State.beats, hfound, Option.any_some, decide_eq_true_eq] at h ⊢
    exact hle.trans h

section Search

variable [DecidableEq μ] (rank : ω → κ) (key : α → κ) (judge : α → Except ε (Verdict ω μ))

/-- Record the verdict on an examined candidate. -/
def State.record (state : State ω μ) : Verdict ω μ → State ω μ
  | .pass => state
  | .miss more => { state with gathered := state.gathered ∪ more }
  | .hit winner => { state with found := some winner }

/-- Examine one candidate unless the incumbent beats it. -/
def step (state : State ω μ) (candidate : α) : Except ε (State ω μ) :=
  if state.beats rank (key candidate) then .ok state
  else
    match judge candidate with
    | .error cause => .error cause
    | .ok verdict => .ok (state.record verdict)

/-- Go through a list of candidates, stopping at the first failure. -/
def run : State ω μ → List α → Except ε (State ω μ)
  | state, [] => .ok state
  | state, candidate :: rest =>
    match step rank key judge state candidate with
    | .error cause => .error cause
    | .ok next => run next rest

variable {rank key judge}

theorem run_append (state : State ω μ) (front back : List α) :
    run rank key judge state (front ++ back) =
      (run rank key judge state front >>= fun next => run rank key judge next back) := by
  induction front generalizing state with
  | nil => rfl
  | cons candidate rest ih =>
    simp only [List.cons_append, run]
    cases step rank key judge state candidate with
    | error cause => rfl
    | ok next => exact ih next

theorem run_of_beats {candidates : List α}
    (h : ∀ candidate ∈ candidates, state.beats rank (key candidate) = true) :
    run rank key judge state candidates = .ok state := by
  induction candidates with
  | nil => rfl
  | cons candidate rest ih =>
    have hfirst := h candidate List.mem_cons_self
    simp only [run, step, hfirst, if_true]
    exact ih fun other hother => h other (List.mem_cons_of_mem _ hother)

/-- A failure of the search is the failure of some candidate it examined. -/
theorem exists_judge_of_run_error {candidates : List α} {cause : ε}
    (h : run rank key judge state candidates = .error cause) :
    ∃ candidate ∈ candidates, judge candidate = .error cause := by
  induction candidates generalizing state with
  | nil => simp [run] at h
  | cons candidate rest ih =>
    simp only [run] at h
    by_cases hbeats : state.beats rank (key candidate) = true
    · simp only [step, hbeats, if_true] at h
      obtain ⟨other, hother, hjudge⟩ := ih h
      exact ⟨other, List.mem_cons_of_mem _ hother, hjudge⟩
    cases hjudge : judge candidate with
    | error first =>
      simp only [step, hbeats, hjudge] at h
      obtain rfl : first = cause := by simpa using h
      exact ⟨candidate, List.mem_cons_self, hjudge⟩
    | ok verdict =>
      simp only [step, hbeats, hjudge] at h
      obtain ⟨other, hother, hfail⟩ := ih h
      exact ⟨other, List.mem_cons_of_mem _ hother, hfail⟩

/-- Examining this candidate does not fail and is not a hit. -/
def Clean (judge : α → Except ε (Verdict ω μ)) (candidate : α) : Prop :=
  judge candidate = .ok .pass ∨ ∃ more, judge candidate = .ok (.miss more)

/-- What a state says about the candidates passed so far.  An incumbent is a hit
among them and everything above it was examined and is clean; without an
incumbent everything was examined, and the gathered set is what the misses
contributed.  Nothing is said about the gathered set once there is an incumbent,
because from then on misses are skipped. -/
structure Summary (rank : ω → κ) (key : α → κ) (judge : α → Except ε (Verdict ω μ))
    (state : State ω μ) (passed : List α) : Prop where
  hit : ∀ winner, state.found = some winner →
    ∃ candidate ∈ passed, judge candidate = .ok (.hit winner)
  above : ∀ winner, state.found = some winner →
    ∀ candidate ∈ passed, rank winner < key candidate → Clean judge candidate
  clean : state.found = none → ∀ candidate ∈ passed, Clean judge candidate
  gathered : state.found = none → ∀ value, value ∈ state.gathered ↔
    ∃ candidate ∈ passed, ∃ more, judge candidate = .ok (.miss more) ∧ value ∈ more

omit [DecidableEq μ] in
theorem Summary.start : Summary rank key judge (State.start : State ω μ) [] := by
  constructor <;> simp [State.start]

omit [DecidableEq μ] in
/-- A candidate that the incumbent beats adds nothing to know. -/
theorem Summary.skip (h : Summary rank key judge state passed)
    (hbeats : state.beats rank (key candidate) = true) :
    Summary rank key judge state (passed ++ [candidate]) := by
  obtain ⟨winner, hfound, hle⟩ : ∃ winner, state.found = some winner ∧
      key candidate ≤ rank winner := by
    simpa [State.beats, Option.any_eq_true] using hbeats
  refine ⟨?_, ?_, ?_, ?_⟩
  · intro other hother
    obtain ⟨source, hsource, hjudge⟩ := h.hit other hother
    exact ⟨source, List.mem_append_left _ hsource, hjudge⟩
  · intro other hother source hsource hlt
    obtain rfl : winner = other := Option.some.inj (hfound.symm.trans hother)
    rcases List.mem_append.mp hsource with hold | hnew
    · exact h.above winner hfound source hold hlt
    · obtain rfl := List.mem_singleton.mp hnew
      exact absurd hle (not_le.mpr hlt)
  · intro hnone
    rw [hfound] at hnone
    contradiction
  · intro hnone
    rw [hfound] at hnone
    contradiction

omit [DecidableEq μ] in
/-- A clean candidate leaves the incumbent and what lies above it alone. -/
theorem Summary.extend {next : State ω μ} (h : Summary rank key judge state passed)
    (hfound : next.found = state.found) (hclean : Clean judge candidate)
    (hgathered : state.found = none → ∀ value, value ∈ next.gathered ↔
      ∃ source ∈ passed ++ [candidate], ∃ more,
        judge source = .ok (.miss more) ∧ value ∈ more) :
    Summary rank key judge next (passed ++ [candidate]) := by
  refine ⟨?_, ?_, ?_, fun hnone => hgathered (hfound ▸ hnone)⟩
  · intro winner hwinner
    obtain ⟨source, hsource, hhit⟩ := h.hit winner (hfound ▸ hwinner)
    exact ⟨source, List.mem_append_left _ hsource, hhit⟩
  · intro winner hwinner source hsource hlt
    rcases List.mem_append.mp hsource with hold | hnew
    · exact h.above winner (hfound ▸ hwinner) source hold hlt
    · exact List.mem_singleton.mp hnew ▸ hclean
  · intro hnone source hsource
    rcases List.mem_append.mp hsource with hold | hnew
    · exact h.clean (hfound ▸ hnone) source hold
    · exact List.mem_singleton.mp hnew ▸ hclean

/-- Recording the verdict on an examined candidate keeps the summary.  The
verdicts name the key they were reached at. -/
theorem Summary.record {verdict : Verdict ω μ}
    (hrank : ∀ source winner, judge source = .ok (.hit winner) → rank winner = key source)
    (h : Summary rank key judge state passed) (hbeats : ¬ state.beats rank (key candidate) = true)
    (hjudge : judge candidate = .ok verdict) :
    Summary rank key judge (state.record verdict) (passed ++ [candidate]) := by
  cases verdict with
  | pass =>
    refine h.extend rfl (Or.inl hjudge) ?_
    intro hnone value
    simp [State.record, h.gathered hnone value, hjudge, or_and_right, exists_or]
  | miss more =>
    refine h.extend rfl (Or.inr ⟨more, hjudge⟩) ?_
    intro hnone value
    simp only [State.record, Finset.mem_union, h.gathered hnone value, List.mem_append,
      List.mem_singleton, or_and_right, exists_or, exists_eq_left, hjudge, Except.ok.injEq,
      Verdict.miss.injEq, exists_eq_left']
  | hit winner =>
    have hown := hrank candidate winner hjudge
    refine ⟨?_, ?_, ?_, ?_⟩
    · intro other hfound
      obtain rfl : winner = other := by simpa [State.record] using hfound
      exact ⟨candidate, by simp, hjudge⟩
    · intro other hfound source hsource hlt
      obtain rfl : winner = other := by simpa [State.record] using hfound
      rcases List.mem_append.mp hsource with hold | hnew
      · cases hprevious : state.found with
        | none => exact h.clean hprevious source hold
        | some previous =>
          -- the old incumbent did not beat this candidate, so it lies below the new one
          have hbelow : rank previous < key candidate := by
            simpa [State.beats, hprevious] using hbeats
          exact h.above previous hprevious source hold (hbelow.trans (hown ▸ hlt))
      · obtain rfl := List.mem_singleton.mp hnew
        exact absurd hlt (hown ▸ lt_irrefl _)
    · intro hnone
      simp [State.record] at hnone
    · intro hnone
      simp [State.record] at hnone

theorem Summary.step {next : State ω μ}
    (hrank : ∀ source winner, judge source = .ok (.hit winner) → rank winner = key source)
    (h : Summary rank key judge state passed)
    (hstep : step rank key judge state candidate = .ok next) :
    Summary rank key judge next (passed ++ [candidate]) := by
  by_cases hbeats : state.beats rank (key candidate) = true
  · obtain rfl : state = next := by simpa [Incumbent.step, hbeats] using hstep
    exact h.skip hbeats
  cases hjudge : judge candidate with
  | error cause => simp [Incumbent.step, hbeats, hjudge] at hstep
  | ok verdict =>
    obtain rfl : state.record verdict = next := by
      simpa [Incumbent.step, hbeats, hjudge] using hstep
    exact h.record hrank hbeats hjudge

/-- A completed search summarises everything it went through. -/
theorem Summary.run {final : State ω μ} {candidates : List α}
    (hrank : ∀ source winner, judge source = .ok (.hit winner) → rank winner = key source)
    (h : Summary rank key judge state passed)
    (hrun : run rank key judge state candidates = .ok final) :
    Summary rank key judge final (passed ++ candidates) := by
  induction candidates generalizing state passed with
  | nil =>
    obtain rfl : state = final := by simpa [Incumbent.run] using hrun
    simpa using h
  | cons candidate rest ih =>
    simp only [Incumbent.run] at hrun
    cases hstep : Incumbent.step rank key judge state candidate with
    | error cause => simp [hstep] at hrun
    | ok next =>
      simp only [hstep] at hrun
      have hnext := ih (h.step hrank hstep) hrun
      simpa using hnext

omit [DecidableEq μ] in
/-- A search over more candidates ends with the same winner when the additional
hits all lie below it. -/
theorem Summary.found_of_subset {state' : State ω μ} {passed' : List α} {winner : ω}
    (hrank : ∀ source winner, judge source = .ok (.hit winner) → rank winner = key source)
    (h : Summary rank key judge state passed) (h' : Summary rank key judge state' passed')
    (hsubset : passed ⊆ passed') (hfound : state.found = some winner)
    (hinj : ∀ first ∈ passed, ∀ second ∈ passed, key first = key second → first = second)
    (hnew : ∀ source ∈ passed', ∀ other, judge source = .ok (.hit other) →
      source ∈ passed ∨ key source < rank winner) : state'.found = some winner := by
  have hnotClean : ∀ {source other}, judge source = .ok (.hit other) → ¬ Clean judge source := by
    rintro source other hhit (hpass | ⟨more, hmiss⟩)
    · simp [hhit] at hpass
    · simp [hhit] at hmiss
  obtain ⟨own, hown, hownHit⟩ := h.hit winner hfound
  cases hfound' : state'.found with
  | none => exact absurd (h'.clean hfound' own (hsubset hown)) (hnotClean hownHit)
  | some rival =>
    obtain ⟨other, hother, hotherHit⟩ := h'.hit rival hfound'
    have hge : rank winner ≤ rank rival := by
      refine not_lt.mp fun hlt => ?_
      rw [hrank own winner hownHit] at hlt
      exact hnotClean hownHit (h'.above rival hfound' own (hsubset hown) hlt)
    rcases hnew other hother rival hotherHit with hold | hbelow
    · have hle : rank rival ≤ rank winner := by
        refine not_lt.mp fun hlt => ?_
        rw [hrank other rival hotherHit] at hlt
        exact hnotClean hotherHit (h.above winner hfound other hold hlt)
      have hkey : key own = key other := by
        rw [← hrank own winner hownHit, ← hrank other rival hotherHit]
        exact le_antisymm hge hle
      obtain rfl := hinj own hown other hold hkey
      have hsame := hotherHit.symm.trans hownHit
      simp only [Except.ok.injEq, Verdict.hit.injEq] at hsame
      rw [hsame]
    · rw [← hrank other rival hotherHit] at hbelow
      exact absurd hge (not_le.mpr hbelow)

end Search

end Incumbent
end GGateway.Library
