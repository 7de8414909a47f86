import GGateway.Upstream.Profile

/-!
# Compiling balancers

`compileWRR`, `compileContinuum` and `compileHashKey` of `internal/upstream`:
what a plan needs to choose endpoints.  Weights are `uint32` in the source; the
products stay far below 64 bits, so natural numbers lose nothing.
-/

namespace GGateway.Upstream

open Text Model Library.Checks

def maxWRRSchedule : Nat := 8192
def maxContinuumPoints : Nat := 65536
def continuumPointsPerWeight : Nat := 64

structure WeightedEndpoint where
  identity : Bytes
  weight : Nat
  deriving DecidableEq, Repr

/-- `wrrSlot` and `continuumEndpoint`: a positive-weight endpoint with what it
has been assigned. -/
structure Slot where
  index : Nat
  identity : Bytes
  weight : Nat
  assigned : Nat
  emitted : Nat
  remainder : Nat
  deriving DecidableEq, Repr

/-- The positive-weight endpoints from an ordinal on. -/
def activeSlots : Nat → List WeightedEndpoint → List Slot
  | _, [] => []
  | index, endpoint :: rest =>
    if endpoint.weight = 0 then activeSlots (index + 1) rest
    else ⟨index, endpoint.identity, endpoint.weight, 0, 0, 0⟩ :: activeSlots (index + 1) rest

variable (slots : List Slot)

/-- Divide all weights by their greatest common divisor. -/
def normalizeWeights : List Slot :=
  let divisor := slots.foldl (fun divisor slot => Nat.gcd divisor slot.weight) 0
  slots.map fun slot => { slot with weight := slot.weight / divisor }

def weightSum : Nat :=
  (slots.map Slot.weight).sum

/-- The order in which the slots left over by rounding are handed out. -/
def remainderBefore (left right : Slot) : Bool :=
  if left.remainder ≠ right.remainder then decide (right.remainder < left.remainder)
  else if left.identity ≠ right.identity then decide (left.identity < right.identity)
  else decide (left.index ≤ right.index)

/-- One for every slot, then a share of the rest by weight, then the remainders. -/
def assignCapped (cap : Nat) (slots : List Slot) : List Slot :=
  let remaining := cap - slots.length
  let total := weightSum slots
  let shared := slots.map fun slot =>
    { slot with
      assigned := 1 + slot.weight * remaining / total
      remainder := slot.weight * remaining % total }
  let allocated := (shared.map Slot.assigned).sum
  let favoured := (shared.mergeSort remainderBefore).take (cap - allocated)
  shared.map fun slot =>
    if favoured.any (·.index == slot.index) then { slot with assigned := slot.assigned + 1 }
    else slot

def assignCappedWRRSlots : List Slot :=
  assignCapped maxWRRSchedule slots

def assignCappedContinuumPoints : List Slot :=
  assignCapped maxContinuumPoints slots

/-! ## Weighted round robin -/

/-- `wrrDeadlineHeap.Less`. -/
def deadlineBefore (left right : Slot) : Bool :=
  let leftDeadline := (left.emitted + 1) * right.assigned
  let rightDeadline := (right.emitted + 1) * left.assigned
  if leftDeadline ≠ rightDeadline then decide (leftDeadline < rightDeadline)
  else if left.identity ≠ right.identity then decide (left.identity < right.identity)
  else decide (left.index < right.index)

/-- The slot that the heap pops next. -/
def earliest : List Slot → Option Slot
  | [] => none
  | slot :: rest =>
    match earliest rest with
    | none => some slot
    | some other => some (if deadlineBefore other slot then other else slot)

/-- The loop over the heap; the first argument counts the entries still to be
written. -/
def emitSchedule : Nat → List Slot → List Nat
  | 0, _ => []
  | pending + 1, slots =>
    match earliest slots with
    | none => []
    | some slot =>
      let others := slots.filter (·.index != slot.index)
      let next := { slot with emitted := slot.emitted + 1 }
      slot.index ::
        emitSchedule pending (if next.emitted < next.assigned then next :: others else others)

structure WRRSelector where
  schedule : List Nat
  direct : Nat
  deriving DecidableEq, Repr

def compileWRR (endpoints : List WeightedEndpoint) : Except Bytes WRRSelector :=
  match activeSlots 0 endpoints with
  | [] => .error (ascii "at least one positive endpoint weight is required")
  | [slot] => .ok ⟨[], slot.index⟩
  | active =>
    if maxWRRSchedule < active.length then
      .error (ascii "active endpoints exceed WRR schedule limit " ++ decimal maxWRRSchedule)
    else
      let normalized := normalizeWeights active
      let slots :=
        if weightSum normalized ≤ maxWRRSchedule then
          normalized.map fun slot => { slot with assigned := slot.weight }
        else assignCappedWRRSlots normalized
      .ok ⟨emitSchedule (slots.map Slot.assigned).sum slots, 0⟩

/-! ## Consistent hashing -/

/-- `binary.PutUvarint`; the first argument bounds the number of groups. -/
def uvarintFrom : Nat → Nat → Bytes
  | 0, _ => []
  | groups + 1, value =>
    if value < 128 then [UInt8.ofNat value]
    else UInt8.ofNat (value % 128 + 128) :: uvarintFrom groups (value / 128)

def uvarint (value : Nat) : Bytes :=
  uvarintFrom 10 value

def continuumPointHash (platform : Platform) (identity : Bytes) (virtualIndex : Nat) : UInt64 :=
  platform.xxhash (uvarint identity.length ++ identity ++ bigEndian 8 virtualIndex)

structure ContinuumPoint where
  hash : UInt64
  identity : Bytes
  virtualIndex : Nat
  endpointIndex : Nat
  deriving DecidableEq, Repr

/-- The order of `sortContinuumPoints`. -/
def pointBefore (left right : ContinuumPoint) : Bool :=
  if left.hash ≠ right.hash then decide (left.hash.toNat < right.hash.toNat)
  else if left.identity ≠ right.identity then decide (left.identity < right.identity)
  else decide (left.virtualIndex ≤ right.virtualIndex)

structure Continuum where
  hashes : List UInt64
  indexes : List Nat
  direct : Nat
  deriving DecidableEq, Repr

def compileContinuum (platform : Platform) (endpoints : List WeightedEndpoint) :
    Except Bytes Continuum :=
  match activeSlots 0 endpoints with
  | [] => .error (ascii "at least one positive endpoint weight is required")
  | [slot] => .ok ⟨[], [], slot.index⟩
  | active =>
    if maxContinuumPoints < active.length then
      .error (ascii "active endpoints exceed continuum point limit " ++
        decimal maxContinuumPoints)
    else
      let normalized := normalizeWeights active
      let slots :=
        if weightSum normalized * continuumPointsPerWeight ≤ maxContinuumPoints then
          normalized.map fun slot =>
            { slot with assigned := slot.weight * continuumPointsPerWeight }
        else assignCappedContinuumPoints normalized
      let points := slots.flatMap fun slot =>
        (List.range slot.assigned).map fun virtualIndex =>
          (⟨continuumPointHash platform slot.identity virtualIndex, slot.identity, virtualIndex,
            slot.index⟩ : ContinuumPoint)
      -- `sort.Slice` is not stable, but two points that compare equal are of one identity, and
      -- the identities of a plan are distinct.
      let sorted := points.mergeSort pointBefore
      .ok ⟨sorted.map ContinuumPoint.hash, sorted.map ContinuumPoint.endpointIndex, 0⟩

/-- `compileHashKey`; the compiled sources are the normalized ones. -/
def compileHashKey (sources : List HashKeySource) : Except ConfigError (List HashKeySource) := do
  require (0 < sources.length ∧ sources.length ≤ maxHashKeySources)
    ⟨.hashKeyInvalid, ascii "hash_key.sources", [],
      some (.text (ascii "requires 1.." ++ decimal maxHashKeySources ++ ascii " sources"))⟩
  normalizeHashSources [] (ascii "hash_key.sources") 0 sources

example : (compileWRR [⟨ascii "a", 2⟩, ⟨ascii "b", 4⟩]).toOption.map WRRSelector.schedule =
    some [1, 0, 1] := by decide

end GGateway.Upstream
