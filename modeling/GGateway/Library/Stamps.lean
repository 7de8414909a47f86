import GGateway.Library.RefTable

/-!
# Tables whose runtimes are numbered

Every runtime that is made for a table gets a number of its own from a counter.

* `Distinct` says that the numbers of the registered runtimes are below the counter, and
  that each belongs to one key
* `Grows` says what any sequence of acquisitions and releases does: a registered runtime
  was registered under the same key before, or is newer than the counter was
* so a number that is seen twice was seen under one key (`Grows.key_eq`)
-/

namespace GGateway.Library
namespace Stamps

open RefTable

variable {κ ρ : Type*} [DecidableEq κ] {stamp : ρ → Nat}

structure Distinct (stamp : ρ → Nat) (table : Table κ ρ) (counter : Nat) : Prop where
  below : ∀ key value, runtime? table key = some value → stamp value < counter
  keys : ∀ key other value found, runtime? table key = some value →
    runtime? table other = some found → stamp value = stamp found → key = other

structure Grows (stamp : ρ → Nat) (table : Table κ ρ) (counter : Nat) (next : Table κ ρ)
    (after : Nat) : Prop where
  mono : counter ≤ after
  runtimes : ∀ key value, runtime? next key = some value →
    runtime? table key = some value ∨ counter ≤ stamp value ∧ stamp value < after
  distinct : Distinct stamp table counter → Distinct stamp next after

variable {table next last : Table κ ρ} {counter after final : Nat}

theorem distinct_empty : Distinct stamp (∅ : Table κ ρ) counter := by
  constructor
  · intro key value h
    simp [runtime?] at h
  · intro key other value found h
    simp [runtime?] at h

theorem grows_of_subset
    (h : ∀ key value, runtime? next key = some value → runtime? table key = some value) :
    Grows stamp table counter next counter := by
  constructor
  · exact le_rfl
  · exact fun key value hvalue => Or.inl (h key value hvalue)
  · intro hdistinct
    constructor
    · exact fun key value hvalue => hdistinct.below key value (h key value hvalue)
    · intro key other value found hvalue hfound
      exact hdistinct.keys key other value found (h _ _ hvalue) (h _ _ hfound)

theorem Grows.refl : Grows stamp table counter table counter :=
  grows_of_subset fun _ _ h => h

theorem Grows.trans (h : Grows stamp table counter next after)
    (h' : Grows stamp next after last final) : Grows stamp table counter last final := by
  constructor
  · exact h.mono.trans h'.mono
  · intro key value hvalue
    rcases h'.runtimes key value hvalue with hold | ⟨hnew, hbound⟩
    · rcases h.runtimes key value hold with holder | ⟨hnew, hbound⟩
      · exact Or.inl holder
      · exact Or.inr ⟨hnew, hbound.trans_le h'.mono⟩
    · exact Or.inr ⟨h.mono.trans hnew, hbound⟩
  · exact fun hdistinct => h'.distinct (h.distinct hdistinct)

/-- The counter may move without a new runtime. -/
theorem grows_counter (h : counter ≤ after) : Grows stamp table counter table after := by
  constructor
  · exact h
  · exact fun _ _ hvalue => Or.inl hvalue
  · exact fun hdistinct =>
      ⟨fun key value hvalue => (hdistinct.below key value hvalue).trans_le h, hdistinct.keys⟩

/-- A runtime that is made gets the number of the counter, which moves on. -/
theorem grows_acquire {key : κ} {fresh : ρ} (hcounter : counter ≤ after)
    (hfresh : runtime? table key = none → stamp fresh = counter ∧ counter < after) :
    Grows stamp table counter (acquire table key fresh) after := by
  have hcases : ∀ other value, runtime? (acquire table key fresh) other = some value →
      runtime? table other = some value ∨
        other = key ∧ stamp value = counter ∧ counter < after := by
    intro other value hvalue
    rcases runtime?_of_acquire hvalue with hold | ⟨hkey, hnone, hvalue⟩
    · exact Or.inl hold
    · rw [hvalue]
      exact Or.inr ⟨hkey, hfresh hnone⟩
  constructor
  · exact hcounter
  · intro other value hvalue
    rcases hcases other value hvalue with hold | ⟨_, hstamp, hless⟩
    · exact Or.inl hold
    · right
      omega
  · intro hdistinct
    constructor
    · intro other value hvalue
      rcases hcases other value hvalue with hold | ⟨_, hstamp, hless⟩
      · have hbelow := hdistinct.below other value hold
        omega
      · omega
    · intro first second value found hvalue hfound hsame
      rcases hcases first value hvalue with hold | ⟨hkey, hstamp, _⟩
      · rcases hcases second found hfound with hold' | ⟨_, hstamp', _⟩
        · exact hdistinct.keys first second value found hold hold' hsame
        · have hbelow := hdistinct.below first value hold
          omega
      · rcases hcases second found hfound with hold' | ⟨hkey', _, _⟩
        · have hbelow := hdistinct.below second found hold'
          omega
        · rw [hkey, hkey']

/-- A number belongs to one key, now and later. -/
theorem Grows.key_eq (h : Grows stamp table counter next after)
    (hdistinct : Distinct stamp table counter) {key other : κ} {value found : ρ}
    (hvalue : runtime? table key = some value) (hfound : runtime? next other = some found)
    (hsame : stamp value = stamp found) : key = other := by
  rcases h.runtimes other found hfound with hold | ⟨hnew, _⟩
  · exact hdistinct.keys key other value found hvalue hold hsame
  · have hbelow := hdistinct.below key value hvalue
    omega

end Stamps
end GGateway.Library
