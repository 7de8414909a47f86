import Mathlib.Data.List.Basic

/-!
# Delimited codes

A code is delimited if what is written can be told apart from whatever follows it.

* `delimited_framed`: a body after a size of one length that fixes its length
* `Delimited.flatMap_injective`: a list is read back from its written elements
* `DelimitedOn` is the same for part of a type: sized words and counted lists of them
-/

namespace GGateway.Library
namespace PrefixCode

variable {α β γ : Type*}

/-- A value is read back from what begins with it, and so is the rest. -/
def Delimited (code : α → List γ) : Prop :=
  ∀ left right leftRest rightRest, code left ++ leftRest = code right ++ rightRest →
    left = right ∧ leftRest = rightRest

variable {code : α → List γ}

/-- The size is read first, and tells where the body ends. -/
theorem delimited_framed {size body : α → List γ}
    (hsize : ∀ left right, (size left).length = (size right).length)
    (hfixed : ∀ left right, size left = size right → (body left).length = (body right).length)
    (hbody : Function.Injective body) : Delimited fun value => size value ++ body value := by
  intro left right leftRest rightRest h
  simp only [List.append_assoc] at h
  obtain ⟨hsizes, h⟩ := List.append_inj h (hsize left right)
  obtain ⟨hbodies, hrest⟩ := List.append_inj h (hfixed left right hsizes)
  exact ⟨hbody hbodies, hrest⟩

/-- Nonempty delimited words are read off one by one. -/
theorem Delimited.flatMap_injective (h : Delimited code) (hnonempty : ∀ value, code value ≠ []) :
    Function.Injective fun values : List α => values.flatMap code := by
  intro lefts
  induction lefts with
  | nil =>
    intro rights hsame
    cases rights with
    | nil => rfl
    | cons right rest =>
      have hnil : code right ++ rest.flatMap code = [] := by simpa using hsame.symm
      exact absurd (List.append_eq_nil_iff.mp hnil).1 (hnonempty right)
  | cons left rest ih =>
    intro rights hsame
    cases rights with
    | nil =>
      have hnil : code left ++ rest.flatMap code = [] := by simpa using hsame
      exact absurd (List.append_eq_nil_iff.mp hnil).1 (hnonempty left)
    | cons right others =>
      obtain ⟨rfl, hrest⟩ := h left right (rest.flatMap code) (others.flatMap code)
        (by simpa using hsame)
      rw [ih hrest]

/-- The values that satisfy a condition are read back from what begins with them. -/
def DelimitedOn (good : α → Prop) (code : α → List γ) : Prop :=
  ∀ left right, good left → good right → ∀ leftRest rightRest,
    code left ++ leftRest = code right ++ rightRest → left = right ∧ leftRest = rightRest

/-- A word after its length. -/
theorem DelimitedOn.sized {bound : Nat} {number : Nat → List γ}
    (h : DelimitedOn (· < bound) number) :
    DelimitedOn (fun word : List γ => word.length < bound)
      fun word => number word.length ++ word := by
  intro left right hleft hright leftRest rightRest hsame
  simp only [List.append_assoc] at hsame
  obtain ⟨hlength, hrest⟩ := h _ _ hleft hright _ _ hsame
  exact List.append_inj hrest hlength

/-- As many words as expected, one after the other. -/
theorem DelimitedOn.flatMap {good : α → Prop} (h : DelimitedOn good code) {lefts rights : List α}
    (hleft : ∀ value ∈ lefts, good value) (hright : ∀ value ∈ rights, good value)
    (hlength : lefts.length = rights.length) {leftRest rightRest : List γ}
    (hsame : lefts.flatMap code ++ leftRest = rights.flatMap code ++ rightRest) :
    lefts = rights ∧ leftRest = rightRest := by
  induction lefts generalizing rights with
  | nil =>
    obtain rfl := List.length_eq_zero_iff.mp hlength.symm
    exact ⟨rfl, hsame⟩
  | cons left lefts ih =>
    cases rights with
    | nil => exact absurd hlength (Nat.succ_ne_zero _)
    | cons right rights =>
      rw [List.forall_mem_cons] at hleft hright
      simp only [List.flatMap_cons, List.append_assoc] at hsame
      obtain ⟨rfl, hrest⟩ := h left right hleft.1 hright.1 _ _ hsame
      obtain ⟨rfl, hends⟩ := ih hleft.2 hright.2 (Nat.succ.inj hlength) hrest
      exact ⟨rfl, hends⟩

/-- A list of words after their number. -/
theorem DelimitedOn.counted {bound : Nat} {number : Nat → List γ}
    (h : DelimitedOn (· < bound) number) {good : α → Prop} (hcode : DelimitedOn good code) :
    DelimitedOn (fun values : List α => values.length < bound ∧ ∀ value ∈ values, good value)
      fun values => number values.length ++ values.flatMap code := by
  intro left right hleft hright leftRest rightRest hsame
  simp only [List.append_assoc] at hsame
  obtain ⟨hlength, hrest⟩ := h _ _ hleft.1 hright.1 _ _ hsame
  exact hcode.flatMap hleft.2 hright.2 hlength hrest

end PrefixCode
end GGateway.Library
