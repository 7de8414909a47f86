import GGateway.Router.Pattern
import GGateway.Router.Predicate
import Mathlib.Data.Prod.Lex
import Mathlib.Order.Lattice

/-!
# Candidates and their precedence

`comparePrecedence` of `internal/router/router.go` and the candidates it ranks.
The comparison decides a linear order, and everything after this module is
stated in that order.
-/

namespace GGateway.Router

open Text

structure PrecedenceKey where
  priority : Int
  hostRank : Nat
  pathKind : Nat
  staticSegments : Nat
  patternBytes : Nat
  predicateCount : Nat
  routeID : Bytes
  deriving DecidableEq, Repr

/-- The loop of `comparePrecedence`, with `none` when every pair ties. -/
def comparePairs : List (Int × Int) → Option Ordering
  | [] => none
  | (left, right) :: rest =>
    if right < left then some .gt
    else if left < right then some .lt
    else comparePairs rest

/-- `comparePrecedence`; the results `1`, `-1` and `0` are `gt`, `lt` and `eq`. -/
def comparePrecedence (left right : PrecedenceKey) : Ordering :=
  match comparePairs
    [(left.priority, right.priority), (left.hostRank, right.hostRank),
      (left.pathKind, right.pathKind), (left.staticSegments, right.staticSegments),
      (left.patternBytes, right.patternBytes), (left.predicateCount, right.predicateCount)] with
  | some decided => decided
  | none =>
    if left.routeID < right.routeID then .gt
    else if right.routeID < left.routeID then .lt
    else .eq

/-- The key as a tuple whose lexicographic order is the precedence; route IDs
count downwards. -/
def PrecedenceKey.toTuple (key : PrecedenceKey) :
    Int ×ₗ Nat ×ₗ Nat ×ₗ Nat ×ₗ Nat ×ₗ Nat ×ₗ Bytesᵒᵈ :=
  toLex (key.priority, toLex (key.hostRank, toLex (key.pathKind, toLex (key.staticSegments,
    toLex (key.patternBytes, toLex (key.predicateCount, OrderDual.toDual key.routeID))))))

theorem PrecedenceKey.toTuple_injective : Function.Injective PrecedenceKey.toTuple := by
  rintro ⟨⟩ ⟨⟩ h
  simpa [PrecedenceKey.toTuple] using h

/-- Greater keys win. -/
instance : LinearOrder PrecedenceKey :=
  LinearOrder.lift' PrecedenceKey.toTuple PrecedenceKey.toTuple_injective

theorem PrecedenceKey.lt_iff (left right : PrecedenceKey) :
    left < right ↔ left.toTuple < right.toTuple :=
  Iff.rfl

/-- The comparison of the source decides the linear order of keys. -/
theorem comparePrecedence_eq_gt (left right : PrecedenceKey) :
    comparePrecedence left right = .gt ↔ right < left := by
  rw [PrecedenceKey.lt_iff]
  simp only [PrecedenceKey.toTuple, Prod.Lex.toLex_lt_toLex, OrderDual.toDual_lt_toDual,
    comparePrecedence, comparePairs]
  rcases lt_trichotomy left.priority right.priority with h1 | h1 | h1
  · simp [h1, h1.not_gt, h1.ne']
  · simp only [h1, lt_irrefl, if_false, true_and, false_or]
    rcases lt_trichotomy left.hostRank right.hostRank with h2 | h2 | h2
    · simp [h2, h2.not_gt, h2.ne']
    · simp only [h2, lt_irrefl, if_false, true_and, false_or]
      rcases lt_trichotomy left.pathKind right.pathKind with h3 | h3 | h3
      · simp [h3, h3.not_gt, h3.ne']
      · simp only [h3, lt_irrefl, if_false, true_and, false_or]
        rcases lt_trichotomy left.staticSegments right.staticSegments with h4 | h4 | h4
        · simp [h4, h4.not_gt, h4.ne']
        · simp only [h4, lt_irrefl, if_false, true_and, false_or]
          rcases lt_trichotomy left.patternBytes right.patternBytes with h5 | h5 | h5
          · simp [h5, h5.not_gt, h5.ne']
          · simp only [h5, lt_irrefl, if_false, true_and, false_or]
            rcases lt_trichotomy left.predicateCount right.predicateCount with h6 | h6 | h6
            · simp [h6, h6.not_gt, h6.ne']
            · simp only [h6, lt_irrefl, if_false, true_and, false_or]
              by_cases h7 : left.routeID < right.routeID
              · simp [h7]
              · by_cases h8 : right.routeID < left.routeID <;> simp [h7, h8]
            · simp [h6]
          · simp [h5]
        · simp [h4]
      · simp [h3]
    · simp [h2]
  · simp [h1]

/-- `comparePrecedence(left, right) <= 0`. -/
theorem comparePrecedence_ne_gt (left right : PrecedenceKey) :
    comparePrecedence left right ≠ .gt ↔ left ≤ right := by
  rw [Ne, comparePrecedence_eq_gt, not_lt]

/-! ## Candidates -/

structure Candidate where
  routeIndex : Int
  routeID : Bytes
  priority : Int
  hostRank : Nat
  path : CompiledPathPattern
  methods : MethodSet
  predicates : List CompiledPredicate
  deriving DecidableEq

def makePrecedenceKey (value : Candidate) : PrecedenceKey where
  priority := value.priority
  hostRank := value.hostRank
  pathKind := value.path.specificity.kindRank
  staticSegments := value.path.specificity.staticSegments
  patternBytes := value.path.specificity.patternBytes
  predicateCount := value.predicates.length
  routeID := value.routeID

/-- The source stores the key in the candidate once the host rank is set. -/
abbrev Candidate.key (value : Candidate) : PrecedenceKey :=
  makePrecedenceKey value

end GGateway.Router
