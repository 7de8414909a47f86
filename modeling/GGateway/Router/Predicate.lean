import GGateway.Model.Resources
import GGateway.Text.Header
import GGateway.Text.Net
import GGateway.Text.Utf8
import Mathlib.Data.Finset.Sort

/-!
# Predicates, queries and method sets

`internal/router/predicate.go` and `internal/router/query.go`: compiled header
and query predicates with their evaluation on a request, the raw query scanner,
and the method set with one bit for each standard method.
-/

namespace GGateway.Router

open Text Model

/-- The part of an `http.Request` the router reads. -/
structure Request where
  method : Bytes
  host : Bytes
  path : Bytes
  rawQuery : Bytes
  header : Header

inductive FieldKind where
  | fieldHeader
  | fieldQuery
  deriving DecidableEq, Repr

structure CompiledPredicate where
  kind : FieldKind
  name : Bytes
  operator : PredicateOperator
  values : Finset Bytes
  deriving DecidableEq

inductive PredicateError where
  | emptyName
  | requiresNoValues (operator : PredicateOperator)
  | requiresOneValue (operator : PredicateOperator)
  | requiresValues (operator : PredicateOperator)
  | unsupportedOperator (operator : PredicateOperator)
  | invalidHeaderName (name : Bytes)
  deriving DecidableEq, Repr

/-- The operator's demand on the number of values. -/
def checkOperator (predicate : Predicate) : Except PredicateError Unit :=
  match predicate.operator with
  | .exists | .notExists =>
    if predicate.values.length ≠ 0 then .error (.requiresNoValues predicate.operator) else .ok ()
  | .equals | .notEquals =>
    if predicate.values.length ≠ 1 then .error (.requiresOneValue predicate.operator) else .ok ()
  | .oneOf =>
    if predicate.values.length = 0 then .error (.requiresValues predicate.operator) else .ok ()
  | .other _ => .error (.unsupportedOperator predicate.operator)

def compilePredicate (kind : FieldKind) (predicate : Predicate) :
    Except PredicateError CompiledPredicate :=
  if trimSpace predicate.name = [] then .error .emptyName
  else
    match checkOperator predicate with
    | .error cause => .error cause
    | .ok () =>
      let name :=
        match kind with
        | .fieldHeader => canonicalMIMEHeaderKey predicate.name
        | .fieldQuery => predicate.name
      if kind = .fieldHeader ∧ name = [] then .error (.invalidHeaderName predicate.name)
      else
        .ok
          { kind := kind
            name := name
            operator := predicate.operator
            values := predicate.values.toFinset }

/-- Why a predicate list is rejected: the list, the index and the cause. -/
inductive PredicatesError where
  | header (index : Nat) (cause : PredicateError)
  | query (index : Nat) (cause : PredicateError)
  deriving DecidableEq, Repr

/-- One of the two loops of `compilePredicates`, from an index on. -/
def compilePredicateList (kind : FieldKind) (report : Nat → PredicateError → PredicatesError) :
    Nat → List Predicate → Except PredicatesError (List CompiledPredicate)
  | _, [] => .ok []
  | index, predicate :: rest =>
    match compilePredicate kind predicate with
    | .error cause => .error (report index cause)
    | .ok instruction =>
      match compilePredicateList kind report (index + 1) rest with
      | .error cause => .error cause
      | .ok compiled => .ok (instruction :: compiled)

def compilePredicates (headers queries : List Predicate) :
    Except PredicatesError (List CompiledPredicate) :=
  match compilePredicateList .fieldHeader .header 0 headers with
  | .error cause => .error cause
  | .ok compiledHeaders =>
    match compilePredicateList .fieldQuery .query 0 queries with
    | .error cause => .error cause
    | .ok compiledQueries => .ok (compiledHeaders ++ compiledQueries)

/-! ## The raw query -/

/-- The two forms of `ErrInvalidQuery`. -/
inductive QueryError where
  | key (keyRaw : Bytes)
  | value (key : Bytes)
  deriving DecidableEq, Repr

/-- The decoded query, a map from keys to value lists. -/
abbrev QueryMap := Bytes → Option (List Bytes)

/-- `query[key] = append(query[key], value)`. -/
def QueryMap.append (query : QueryMap) (key value : Bytes) : QueryMap :=
  fun name => if name = key then some ((query key).getD [] ++ [value]) else query name

/-- The loop of `scanRawQuery` over the `&`-separated pairs. -/
def scanPairs : List Bytes → QueryMap → Except QueryError QueryMap
  | [], query => .ok query
  | pair :: rest, query =>
    if pair = [] then scanPairs rest query
    else
      let (keyRaw, valueRaw) := (cut pair 61).getD (pair, [])
      match queryUnescape keyRaw with
      | none => .error (.key keyRaw)
      | some key =>
        match queryUnescape valueRaw with
        | none => .error (.value key)
        | some value => scanPairs rest (query.append key value)

def scanRawQuery (raw : Bytes) : Except QueryError QueryMap :=
  if raw = [] then .ok fun _ => none else scanPairs (split raw 38) fun _ => none

/-! ## Evaluation -/

/-- The loop of `headerValues` over the header's entries: values stored under
another spelling of the name are appended. -/
def collectValues (tables : UnicodeTables) (name : Bytes) :
    List (Bytes × List Bytes) → Option (List Bytes) → Option (List Bytes)
  | [], found => found
  | (key, candidate) :: rest, found =>
    if key = name ∨ ¬ equalFold tables key name then collectValues tables name rest found
    else
      match found with
      | none => collectValues tables name rest (some candidate)
      | some values => collectValues tables name rest (some (values ++ candidate))

variable (tables : UnicodeTables)

/-- `headerValues`, with `none` for an absent name. -/
def headerValues (header : Header) (name : Bytes) :
    Option (List Bytes) :=
  collectValues tables name header.entries (header.lookup name)

def anyValueMatches (values : List Bytes) (expected : Finset Bytes) : Bool :=
  values.any fun value => decide (value ∈ expected)

/-- The operator switch of `evaluate`; an absent name has no values. -/
def PredicateOperator.matched (operator : PredicateOperator) (expected : Finset Bytes)
    (values : Option (List Bytes)) : Bool :=
  match operator with
  | .exists => values.isSome
  | .notExists => !values.isSome
  | .equals | .oneOf => values.isSome && anyValueMatches (values.getD []) expected
  | .notEquals => values.isSome && !anyValueMatches (values.getD []) expected
  | .other _ => false

/-- The values a predicate looks at.  The query is decoded at most once in the
source; decoding is a function of the request, so the model decodes on use. -/
def CompiledPredicate.fieldValues (request : Request)
    (predicate : CompiledPredicate) : Except QueryError (Option (List Bytes)) :=
  match predicate.kind with
  | .fieldHeader => .ok (headerValues tables request.header predicate.name)
  | .fieldQuery =>
    match scanRawQuery request.rawQuery with
    | .error cause => .error cause
    | .ok query => .ok (query predicate.name)

/-- `compiledPredicateSet.evaluate`: the first failing predicate ends the loop,
so a malformed query is noticed only by a query predicate that is reached. -/
def evaluate (tables : UnicodeTables) (request : Request) :
    List CompiledPredicate → Except QueryError Bool
  | [] => .ok true
  | predicate :: rest =>
    match predicate.fieldValues tables request with
    | .error cause => .error cause
    | .ok values =>
      if PredicateOperator.matched predicate.operator predicate.values values then
        evaluate tables request rest
      else .ok false

/-! ## Methods -/

def standardMethods : List Bytes :=
  [ascii "CONNECT", ascii "DELETE", ascii "GET", ascii "HEAD", ascii "OPTIONS", ascii "PATCH",
    ascii "POST", ascii "PUT", ascii "TRACE"]

variable (method : Bytes)

/-- The position of a standard method is the number of its bit. -/
def standardMethodBit : Option (BitVec 16) :=
  (standardMethods.idxOf? method).map fun position => 1#16 <<< position

/-- A standard method is kept as a bit only. -/
structure MethodSet where
  standard : BitVec 16
  custom : Finset Bytes
  custom_nonstandard : ∀ method ∈ custom, standardMethodBit method = none
  deriving DecidableEq

/-- The zero value of `methodSet`. -/
def MethodSet.empty : MethodSet :=
  ⟨0#16, ∅, by simp⟩

variable (methods : MethodSet)

def MethodSet.contains : Bool :=
  match standardMethodBit method with
  | some bit => methods.standard &&& bit != 0#16
  | none => decide (method ∈ methods.custom)

/-- The methods that `addAllow` adds. -/
def MethodSet.values : Finset Bytes :=
  (standardMethods.filter methods.contains).toFinset ∪ methods.custom

/-- `methodSet.sortedValues`. -/
def MethodSet.sortedValues : List Bytes :=
  sortStrings (standardMethods.filter methods.contains ++ methods.custom.sort (· ≤ ·))

inductive MethodError where
  | empty
  | invalidToken (index : Nat) (configured : Bytes)
  | duplicate (method : Bytes)
  deriving DecidableEq, Repr

/-- Set the bit of a standard method, or keep a custom one by name. -/
def MethodSet.add : MethodSet :=
  match h : standardMethodBit method with
  | some bit => { methods with standard := methods.standard ||| bit }
  | none =>
    { methods with
      custom := insert method methods.custom
      custom_nonstandard := by
        intro other hother
        rcases Finset.mem_insert.mp hother with rfl | hold
        · exact h
        · exact methods.custom_nonstandard other hold }

/-- The loop of `compileMethods`. -/
def compileMethodList (tables : UnicodeTables) :
    Nat → List Bytes → MethodSet → List Bytes → Except MethodError MethodSet
  | _, [], compiled, _ => .ok compiled
  | index, configured :: rest, compiled, seen =>
    if !validToken configured then .error (.invalidToken index configured)
    else
      let method := toUpper tables configured
      if seen.contains method then .error (.duplicate method)
      else compileMethodList tables (index + 1) rest (compiled.add method) (method :: seen)

def compileMethods (methods : List Bytes) :
    Except MethodError MethodSet :=
  if methods = [] then .error .empty
  else compileMethodList tables 0 methods MethodSet.empty []

/-! ## What the compiled forms mean -/

theorem and_twoPow_ne_zero (standard : BitVec 16) {position : Nat} (h : position < 16) :
    (standard &&& BitVec.twoPow 16 position != 0#16) = standard.getLsbD position := by
  rw [BitVec.and_twoPow]
  cases standard.getLsbD position with
  | false => simp
  | true =>
    have hbit : (BitVec.twoPow 16 position).getLsbD position = true := by
      simp [h]
    have hne : BitVec.twoPow 16 position ≠ 0#16 := by
      intro hzero
      simp [hzero] at hbit
    simpa using hne

theorem standardMethodBit_eq_some {method : Bytes} {bit : BitVec 16}
    (h : standardMethodBit method = some bit) :
    ∃ position, position < 16 ∧ standardMethods.idxOf? method = some position ∧
      bit = BitVec.twoPow 16 position := by
  obtain ⟨position, hposition, hbit⟩ := Option.map_eq_some_iff.mp h
  obtain ⟨hlt, _, _⟩ := List.findIdx?_eq_some_iff_getElem.mp hposition
  have hlength : standardMethods.length = 9 := rfl
  exact ⟨position, by omega, hposition, hbit.symm⟩

/-- Different standard methods have different bits. -/
theorem idxOf?_standardMethods_inj {left right : Bytes} {position other : Nat}
    (hleft : standardMethods.idxOf? left = some position)
    (hright : standardMethods.idxOf? right = some other) : position = other ↔ left = right := by
  constructor
  · rintro rfl
    obtain ⟨_, hatLeft, _⟩ := List.findIdx?_eq_some_iff_getElem.mp hleft
    obtain ⟨_, hatRight, _⟩ := List.findIdx?_eq_some_iff_getElem.mp hright
    exact (beq_iff_eq.mp hatLeft).symm.trans (beq_iff_eq.mp hatRight)
  · rintro rfl
    exact Option.some.inj (hleft.symm.trans hright)

theorem MethodSet.add_of_standard {method : Bytes} {bit : BitVec 16}
    (h : standardMethodBit method = some bit) :
    (methods.add method).standard = methods.standard ||| bit ∧
      (methods.add method).custom = methods.custom := by
  unfold MethodSet.add
  split
  · rename_i other hother
    obtain rfl : other = bit := Option.some.inj (hother.symm.trans h)
    exact ⟨rfl, rfl⟩
  · rename_i hnone
    rw [h] at hnone
    contradiction

theorem MethodSet.add_of_custom {method : Bytes}
    (h : standardMethodBit method = none) :
    (methods.add method).standard = methods.standard ∧
      (methods.add method).custom = insert method methods.custom := by
  unfold MethodSet.add
  split
  · rename_i other hother
    rw [h] at hother
    contradiction
  · exact ⟨rfl, rfl⟩

theorem MethodSet.contains_add (added method : Bytes) :
    (methods.add added).contains method = true ↔
      methods.contains method = true ∨ method = added := by
  cases hadded : standardMethodBit added with
  | none =>
    obtain ⟨hstandard, hcustom⟩ := methods.add_of_custom hadded
    cases hmethod : standardMethodBit method with
    | none => simp [MethodSet.contains, hmethod, hcustom, or_comm]
    | some wanted =>
      have hne : method ≠ added := by
        rintro rfl
        simp [hmethod] at hadded
      simp [MethodSet.contains, hmethod, hstandard, hne]
  | some bit =>
    obtain ⟨hstandard, hcustom⟩ := methods.add_of_standard hadded
    cases hmethod : standardMethodBit method with
    | none =>
      have hne : method ≠ added := by
        rintro rfl
        simp [hmethod] at hadded
      simp [MethodSet.contains, hmethod, hcustom, hne]
    | some wanted =>
      obtain ⟨position, hposition, hat, rfl⟩ := standardMethodBit_eq_some hmethod
      obtain ⟨other, hother, hatOther, rfl⟩ := standardMethodBit_eq_some hadded
      have hnew : (BitVec.twoPow 16 other).getLsbD position = decide (position = other) := by
        simp [BitVec.getLsbD_twoPow, hother, eq_comm]
      simp only [MethodSet.contains, hmethod, hstandard, and_twoPow_ne_zero _ hposition,
        BitVec.getLsbD_or, hnew, Bool.or_eq_true, decide_eq_true_eq,
        idxOf?_standardMethods_inj hat hatOther]

/-- The set that `addAllow` and `sortedValues` enumerate is the one that
`contains` tests. -/
theorem MethodSet.mem_values :
    method ∈ methods.values ↔ methods.contains method = true := by
  simp only [MethodSet.values, Finset.mem_union, List.mem_toFinset, List.mem_filter]
  cases hmethod : standardMethodBit method with
  | none =>
    have habsent : method ∉ standardMethods := by
      intro hin
      have hnone : standardMethods.idxOf? method = none := by
        simpa [standardMethodBit] using hmethod
      exact List.idxOf?_eq_none_iff.mp hnone hin
    simp [habsent, MethodSet.contains, hmethod]
  | some bit =>
    have hin : method ∈ standardMethods := by
      obtain ⟨position, _, hat, _⟩ := standardMethodBit_eq_some hmethod
      by_contra habsent
      rw [List.idxOf?_eq_none_iff.mpr habsent] at hat
      contradiction
    have hcustom : method ∉ methods.custom := by
      intro hmem
      rw [methods.custom_nonstandard method hmem] at hmethod
      contradiction
    simp [hin, hcustom]

theorem compileMethodList_contains {tables : UnicodeTables} {index : Nat}
    {configured seen : List Bytes} {compiled result : MethodSet}
    (h : compileMethodList tables index configured compiled seen = .ok result) (method : Bytes) :
    result.contains method = true ↔
      compiled.contains method = true ∨ method ∈ configured.map (toUpper tables) := by
  induction configured generalizing index compiled seen with
  | nil =>
    obtain rfl : compiled = result := by simpa [compileMethodList] using h
    simp
  | cons first rest ih =>
    simp only [compileMethodList] at h
    split at h
    · contradiction
    split at h
    · contradiction
    · rw [ih h, MethodSet.contains_add, List.map_cons, List.mem_cons]
      tauto

/-- A compiled method list accepts exactly the upper-case forms of its entries. -/
theorem compileMethods_contains {tables : UnicodeTables} {methods : List Bytes}
    {compiled : MethodSet} (h : compileMethods tables methods = .ok compiled) (method : Bytes) :
    compiled.contains method = true ↔ method ∈ methods.map (toUpper tables) := by
  have hnone : MethodSet.empty.contains method = false := by
    unfold MethodSet.contains
    split <;> simp [MethodSet.empty]
  unfold compileMethods at h
  split at h
  · contradiction
  · rw [compileMethodList_contains h, hnone]
    simp

/-! ## What evaluation depends on -/

/-- An entry whose key is another spelling of the name. -/
def otherSpelling (name key : Bytes) : Prop :=
  key ≠ name ∧ equalFold tables key name = true

theorem collectValues_spec (name : Bytes)
    (entries : List (Bytes × List Bytes)) (found : Option (List Bytes)) :
    ((collectValues tables name entries found).isSome = true ↔ found.isSome = true ∨
      ∃ entry ∈ entries, otherSpelling tables name entry.1) ∧
    ∀ value, value ∈ (collectValues tables name entries found).getD [] ↔
      value ∈ found.getD [] ∨
        ∃ entry ∈ entries, otherSpelling tables name entry.1 ∧ value ∈ entry.2 := by
  induction entries generalizing found with
  | nil => simp [collectValues]
  | cons entry rest ih =>
    obtain ⟨key, candidate⟩ := entry
    by_cases hskip : key = name ∨ ¬ equalFold tables key name = true
    · have hother : ¬ otherSpelling tables name key := by
        simp only [otherSpelling]
        tauto
      simp only [collectValues, if_pos hskip, List.exists_mem_cons_iff, hother, false_and,
        false_or]
      exact ih found
    · have hother : otherSpelling tables name key := by
        tauto
      cases found with
      | none =>
        obtain ⟨hsome, hvalues⟩ := ih (some candidate)
        simp only [collectValues, if_neg hskip, List.exists_mem_cons_iff, hother, true_and]
        simp [hsome, hvalues]
      | some values =>
        obtain ⟨hsome, hvalues⟩ := ih (some (values ++ candidate))
        simp only [collectValues, if_neg hskip, List.exists_mem_cons_iff, hother, true_and]
        simp [hsome, hvalues, or_assoc]

/-- Only presence and the set of values matter to an operator. -/
theorem matched_congr (operator : PredicateOperator) (expected : Finset Bytes)
    (left right : Option (List Bytes)) (hsome : left.isSome = true ↔ right.isSome = true)
    (hvalues : ∀ value, value ∈ left.getD [] ↔ value ∈ right.getD []) :
    PredicateOperator.matched operator expected left =
      PredicateOperator.matched operator expected right := by
  have hpresent : left.isSome = right.isSome := Bool.eq_iff_iff.mpr hsome
  have hany : anyValueMatches (left.getD []) expected =
      anyValueMatches (right.getD []) expected := by
    apply Bool.eq_iff_iff.mpr
    simp only [anyValueMatches, List.any_eq_true, hvalues]
  cases operator <;> simp only [PredicateOperator.matched, hpresent, hany]

/-- Two requests that differ at most in the iteration order of the header. -/
structure Request.Same (left right : Request) : Prop where
  method : left.method = right.method
  host : left.host = right.host
  path : left.path = right.path
  rawQuery : left.rawQuery = right.rawQuery
  header : left.header.SameMap right.header

theorem evaluate_same {left right : Request} (h : left.Same right)
    (predicates : List CompiledPredicate) :
    evaluate tables left predicates = evaluate tables right predicates := by
  induction predicates with
  | nil => rfl
  | cons predicate rest ih =>
    cases hkind : predicate.kind with
    | fieldQuery =>
      simp only [evaluate, CompiledPredicate.fieldValues, hkind, h.rawQuery, ih]
    | fieldHeader =>
      have hleft := collectValues_spec tables predicate.name left.header.entries
        (left.header.lookup predicate.name)
      have hright := collectValues_spec tables predicate.name right.header.entries
        (right.header.lookup predicate.name)
      have hlookup := Header.lookup_eq_of_sameMap h.header predicate.name
      have hmatched := matched_congr predicate.operator predicate.values
        (headerValues tables left.header predicate.name)
        (headerValues tables right.header predicate.name)
        (by
          rw [headerValues, headerValues, hleft.1, hright.1, hlookup]
          simp only [h.header.mem_iff])
        (by
          intro value
          rw [headerValues, headerValues, hleft.2, hright.2, hlookup]
          simp only [h.header.mem_iff])
      simp only [evaluate, CompiledPredicate.fieldValues, hkind, hmatched, ih]

/-- Evaluation fails only at a query predicate, and only with the scanner's own
error. -/
theorem scanRawQuery_of_evaluate_error {tables : UnicodeTables} {request : Request}
    {predicates : List CompiledPredicate} {cause : QueryError}
    (h : evaluate tables request predicates = .error cause) :
    scanRawQuery request.rawQuery = .error cause ∧
      ∃ predicate ∈ predicates, predicate.kind = .fieldQuery := by
  induction predicates with
  | nil => simp [evaluate] at h
  | cons predicate rest ih =>
    cases hkind : predicate.kind with
    | fieldHeader =>
      simp only [evaluate, CompiledPredicate.fieldValues, hkind] at h
      split at h
      · obtain ⟨hscan, other, hother, hquery⟩ := ih h
        exact ⟨hscan, other, List.mem_cons_of_mem _ hother, hquery⟩
      · contradiction
    | fieldQuery =>
      refine ⟨?_, predicate, List.mem_cons_self, hkind⟩
      cases hscan : scanRawQuery request.rawQuery with
      | error first =>
        simp only [evaluate, CompiledPredicate.fieldValues, hkind, hscan] at h
        simpa using h
      | ok query =>
        simp only [evaluate, CompiledPredicate.fieldValues, hkind, hscan] at h
        split at h
        · rw [← (ih h).1, hscan]
        · contradiction

end GGateway.Router
