import GGateway.Upstream.Budget
import GGateway.Upstream.Selection
import GGateway.WebSocket.Response

/-!
# The attempt loop

`executeAttempts` of `internal/proxy/attempt.go` with `retryEligible`,
`classifyAttempt`, `cloneAttemptRequest` and `drainRetryResponse` of `retry.go` and
`classifyWebSocketAttempt` of `websocket.go`.
What the loop does to the world is a list of events, in order; what the world
answers is given for each attempt, so that health, the budget and the shared
counter may change in any way between two steps.
-/

namespace GGateway.Proxy

open Text Model Upstream WebSocket

/-! ## Requests and results -/

/-- What the loop reads of a request.  `hasBody` is false for a nil body and for
`http.NoBody`; `hasGetBody` says that `GetBody` is set. -/
structure AttemptRequest where
  method : Bytes
  hasBody : Bool
  hasGetBody : Bool
  input : HashInput

/-- What is asked of an error: `errors.As` for a `net.Error` that is a timeout, a TLS
failure, a failed dial, an end of file or a reset; and whether it matches
`context.Canceled` or wraps an `http.MaxBytesError`. -/
structure TransportError where
  timeout : Bool
  tls : Bool
  dial : Bool
  disconnected : Bool
  canceled : Bool
  bodyLimit : Bool
  deriving DecidableEq, Repr

/-- A response; `body` is the number of bytes its body delivers to the loop. -/
structure Response where
  status : Int
  header : Header
  body : Option Nat

structure RoundTripResult where
  response : Option Response
  err : Option TransportError

/-! ## Classification -/

inductive RetryReason where
  | none
  | connectFailure
  | connectionFailure
  | responseHeaderTimeout
  | status
  deriving DecidableEq, Repr

structure AttemptDecision where
  retry : Bool
  reason : RetryReason
  observation : Observation
  deriving DecidableEq, Repr

def retryEligible (tables : UnicodeTables) (request : AttemptRequest) (live : Bool)
    (policy : RetryPolicy) : Bool :=
  if policy.maxAttempts ≤ 1 ∨ live = false then false
  else if toUpper tables request.method ∉ policy.methods then false
  else !request.hasBody || request.hasGetBody

def classifyAttempt (policy : RetryPolicy) (result : RoundTripResult) : AttemptDecision :=
  match result.err with
  | some err =>
    let failed := fun (retry : Bool) (reason : RetryReason) =>
      (⟨retry, reason, ⟨.passive, .transportFailure, 0⟩⟩ : AttemptDecision)
    if err.timeout then
      ⟨policy.retryOn.responseHeaderTimeout, .responseHeaderTimeout, ⟨.passive, .timeout, 0⟩⟩
    else if err.tls then failed policy.retryOn.connectionFailure .connectionFailure
    else if err.dial then failed policy.retryOn.connectFailure .connectFailure
    else if err.disconnected then failed policy.retryOn.connectionFailure .connectionFailure
    else failed false .none
  | none =>
    match result.response with
    | none => ⟨false, .none, ⟨.passive, .neutral, 0⟩⟩
    | some response =>
      let listed := decide (statusWord response.status ∈ policy.retryOn.statuses)
      ⟨listed, if listed then .status else .none, ⟨.passive, .success, response.status⟩⟩

/-- What a classifier does: its decision, and whether it closes the body of the response. -/
structure Classified where
  decision : AttemptDecision
  closes : Bool

abbrev AttemptClassifier :=
  RetryPolicy → RoundTripResult → Classified

/-- `classifyAttempt` as it is passed to the loop; it closes nothing. -/
def plainClassifier : AttemptClassifier :=
  fun policy result => ⟨classifyAttempt policy result, false⟩

/-- An invalid 101 is a failed connection.  Its body is closed if the policy retries those,
before it is known whether there is a retry. -/
def classifyWebSocketAttempt (tables : UnicodeTables) (sha1 : Bytes → Bytes)
    (request : RequestHandshake) : AttemptClassifier :=
  fun policy result =>
    match result.err, result.response with
    | none, some response =>
      if response.status = 101 ∧
          (validateResponse tables sha1 request ⟨response.status, response.header⟩).isOk = false then
        let retry := policy.retryOn.connectionFailure
        ⟨⟨retry, .connectionFailure, ⟨.passive, .transportFailure, 0⟩⟩, retry && response.body.isSome⟩
      else ⟨classifyAttempt policy result, false⟩
    | _, _ => ⟨classifyAttempt policy result, false⟩

/-! ## The request of one attempt -/

inductive CloneError where
  | notReplayable
  | body (cause : Bytes)
  deriving DecidableEq, Repr

/-- `cloneAttemptRequest`; `body` is what `GetBody` answers.  The URL of the clone is
that of the selected endpoint. -/
def cloneAttemptRequest (request : AttemptRequest) (attempt : Nat) (body : Except Bytes Unit) :
    Except CloneError Unit :=
  if 1 < attempt ∧ request.hasBody then
    if request.hasGetBody then body.mapError .body else .error .notReplayable
  else .ok ()

/-! ## Acquiring a permit -/

/-- A call of `Acquire` run to its end, on what each of its accesses finds: whether
it was granted, and the credits it has taken. -/
def runAcquire : BudgetCall → List RetryBudget → Option (Bool × Int)
  | .holding, [] => some (true, 0)
  | .refused, [] => some (false, 0)
  | _, [] => none
  | call, budget :: rest =>
    match call.step budget with
    | none => none
    | some (next, after) =>
      (runAcquire after rest).map fun (granted, removed) =>
        (granted, removed + (budget.credits.toNat - next.credits.toNat))

/-- A finished call of `Acquire`, whatever other calls did meanwhile. -/
structure Acquisition where
  budgets : List RetryBudget
  granted : Bool
  removed : Int
  finished : runAcquire .inflightLoad budgets = some (granted, removed)

/-! ## The loop -/

/-- What the world answers for one attempt: health and counter when its endpoint is
selected, `GetBody`, the round trip, whether the context is live after it, and the
budget when a further attempt is asked for. -/
structure Surroundings where
  trackers : Trackers
  sequence : UInt64
  body : Except Bytes Unit
  result : RoundTripResult
  alive : Bool
  acquisition : Acquisition

/-- One call of `executeAttempts`; `live` is the context at its start. -/
structure Call where
  platform : Platform
  plan : Plan
  classify : AttemptClassifier
  policy : RetryPolicy
  request : AttemptRequest
  live : Bool
  world : Nat → Surroundings

/-- What the loop does.  A body is `closed` by the loop and `discarded` by its classifier. -/
inductive AttemptEvent where
  | activated
  | credited
  | sent (attempt : Nat) (selection : Selection)
  | observed (selection : Selection) (observation : Observation)
  | asked (acquisition : Acquisition)
  | released
  | drained (attempt : Nat) (bytes : Nat)
  | closed (attempt : Nat)
  | discarded (attempt : Nat)

inductive AttemptError where
  | select (cause : SelectError)
  | clone (cause : CloneError)
  | transport (cause : TransportError)
  | exhausted
  deriving DecidableEq, Repr

/-- `RetrySuppressed`. -/
inductive Suppression where
  | requestNotReplayable
  | attemptLimit
  | budget
  | noUntriedEndpoint
  | bodyNotReplayable
  deriving DecidableEq, Repr

/-- The result and the error, with what the loop has written to the request state. -/
structure AttemptReturn where
  response : Option Response
  selection : Option Selection
  err : Option AttemptError
  attempts : Nat
  suppressed : Option Suppression

namespace Call

def maxAttempts (call : Call) : Nat :=
  min 5 (max 1 call.policy.maxAttempts.toNat)

variable (call : Call)

def eligible : Bool :=
  retryEligible call.platform.tables call.request call.live call.policy

/-- `SelectNext` for an attempt. -/
def selectNext (call : Call) (attempt : Nat) (attempted : AttemptSet) :
    Except SelectError Selection :=
  (call.plan.selectNext call.platform (call.world attempt).trackers (call.world attempt).sequence
    (some call.request.input) (some attempted)).2

variable (attempt : Nat)

def classified : Classified :=
  call.classify call.policy (call.world attempt).result

def decision (call : Call) (attempt : Nat) : AttemptDecision :=
  (call.classified attempt).decision

def discards : List AttemptEvent :=
  if (call.classified attempt).closes then [.discarded attempt] else []

/-- `AcquireRetry` after an attempt; a plan without a budget grants nothing. -/
def acquired : Bool :=
  call.plan.budget.isSome && (call.world attempt).acquisition.granted

def asks : List AttemptEvent :=
  if call.plan.budget.isSome then [.asked (call.world attempt).acquisition] else []

def releases (permit : Bool) : List AttemptEvent :=
  if permit then [.released] else []

/-- `drainRetryResponse`: at most one byte over the limit, then the body is closed. -/
def drain : List AttemptEvent :=
  match (call.world attempt).result.response.bind Response.body with
  | none => []
  | some available => [.drained attempt (min available (32 * 1024 + 1)), .closed attempt]

def finish (selection : Selection)
    (suppressed : Option Suppression) : AttemptReturn :=
  ⟨(call.world attempt).result.response, some selection,
    (call.world attempt).result.err.map .transport, attempt, suppressed⟩

/-- Why the loop stops before it asks for a permit. -/
def stopped : Option Suppression :=
  if !call.eligible && (call.decision attempt).retry then some .requestNotReplayable
  else if attempt == call.maxAttempts && (call.decision attempt).retry then some .attemptLimit
  else none

/-- The loop, from an attempt on; the first argument is the number of attempts left. -/
def loop (call : Call) :
    Nat → Nat → AttemptSet → Selection → Bool → List AttemptEvent × AttemptReturn
  | 0, attempt, _, _, _ => ([], ⟨none, none, some .exhausted, attempt - 1, none⟩)
  | remaining + 1, attempt, attempted, selection, permit =>
    match attempted.add selection.ordinal with
    | none =>
      (releases permit,
        ⟨none, some selection, some (.select .noHealthyEndpoint), attempt - 1, none⟩)
    | some attempted =>
      match cloneAttemptRequest call.request attempt (call.world attempt).body with
      | .error cause =>
        (releases permit,
          ⟨none, some selection, some (.clone cause), attempt, some .bodyNotReplayable⟩)
      | .ok () =>
        let trip := .sent attempt selection :: releases permit ++ call.discards attempt ++
          [.observed selection (call.decision attempt).observation]
        if !call.eligible || !(call.decision attempt).retry ||
            attempt == call.maxAttempts || !(call.world attempt).alive then
          (trip, call.finish attempt selection (call.stopped attempt))
        else if call.acquired attempt then
          match call.selectNext (attempt + 1) attempted with
          | .error _ =>
            (trip ++ call.asks attempt ++ [.released],
              call.finish attempt selection (some .noUntriedEndpoint))
          | .ok next =>
            let (rest, returned) := call.loop remaining (attempt + 1) attempted next true
            (trip ++ call.asks attempt ++ call.drain attempt ++ rest, returned)
        else
          (trip ++ call.asks attempt, call.finish attempt selection (some .budget))

/-- `executeAttempts`. -/
def executeAttempts : List AttemptEvent × AttemptReturn :=
  match call.selectNext 1 .empty with
  | .error cause => ([.activated, .credited], ⟨none, none, some (.select cause), 0, none⟩)
  | .ok selection =>
    let (events, returned) := call.loop call.maxAttempts 1 .empty selection false
    (.activated :: .credited :: events, returned)

end Call

end GGateway.Proxy
