import GGateway.Library.Checks
import GGateway.Model.Resources
import GGateway.Text.Header
import GGateway.Text.Net
import GGateway.Text.Utf8

/-!
# Normalizing upstreams

`Normalize` of `internal/upstream/config.go` with every check it makes, in the
order it makes them.  `url.Parse` and the printing of an address enter through
`Platform`, as do the digests used later for keys.
-/

namespace GGateway.Upstream

open Text Model Library.Checks

/-- The parts of a parsed URL that are read. -/
structure URL where
  scheme : Bytes
  opaquePart : Bytes
  hasUser : Bool
  host : Bytes
  hostname : Bytes
  port : Bytes
  path : Bytes
  rawPath : Bytes
  rawQuery : Bytes
  fragment : Bytes
  deriving DecidableEq, Repr

/-- Functions of the standard library and of `xxhash` that are not written out:
`url.Parse` with its error text, `Addr.Unmap().String()`, and the digests. -/
structure Platform where
  tables : UnicodeTables
  parseURL : Bytes → Except Bytes URL
  unmapAddr : Bytes → Bytes
  sha256 : Bytes → Bytes
  xxhash : Bytes → UInt64

/-- The stable error codes of the package. -/
inductive ConfigCode where
  | upstreamIDInvalid
  | upstreamIDDuplicate
  | upstreamEndpointsEmpty
  | upstreamEndpointLimit
  | upstreamWeightInvalid
  | upstreamEndpointInvalid
  | upstreamSchemeMixed
  | upstreamEndpointDuplicate
  | upstreamNoActiveEndpoint
  | hashKeyInvalid
  | balancerTypeInvalid
  | balancerBudgetExceeded
  | transportProfileInvalid
  | transportProtocolInvalid
  | transportTLSInvalid
  | passiveHealthRequiresActive
  | activeHealthInvalid
  | passiveHealthInvalid
  | retryPolicyInvalid
  | retryStatusInvalid
  | tlsMaterialIDInvalid
  | tlsMaterialIDDuplicate
  | tlsMaterialRefNotFound
  | registryClosed
  | retiredSnapshotLimit
  deriving DecidableEq, Repr

def ConfigCode.text : ConfigCode → Bytes
  | .upstreamIDInvalid => ascii "UPSTREAM_ID_INVALID"
  | .upstreamIDDuplicate => ascii "UPSTREAM_ID_DUPLICATE"
  | .upstreamEndpointsEmpty => ascii "UPSTREAM_ENDPOINTS_EMPTY"
  | .upstreamEndpointLimit => ascii "UPSTREAM_ENDPOINT_LIMIT"
  | .upstreamWeightInvalid => ascii "UPSTREAM_WEIGHT_INVALID"
  | .upstreamEndpointInvalid => ascii "UPSTREAM_ENDPOINT_INVALID"
  | .upstreamSchemeMixed => ascii "UPSTREAM_SCHEME_MIXED"
  | .upstreamEndpointDuplicate => ascii "UPSTREAM_ENDPOINT_DUPLICATE"
  | .upstreamNoActiveEndpoint => ascii "UPSTREAM_NO_ACTIVE_ENDPOINT"
  | .hashKeyInvalid => ascii "HASH_KEY_INVALID"
  | .balancerTypeInvalid => ascii "BALANCER_TYPE_INVALID"
  | .balancerBudgetExceeded => ascii "BALANCER_BUDGET_EXCEEDED"
  | .transportProfileInvalid => ascii "TRANSPORT_PROFILE_INVALID"
  | .transportProtocolInvalid => ascii "TRANSPORT_PROTOCOL_INVALID"
  | .transportTLSInvalid => ascii "TRANSPORT_TLS_INVALID"
  | .passiveHealthRequiresActive => ascii "PASSIVE_HEALTH_REQUIRES_ACTIVE"
  | .activeHealthInvalid => ascii "ACTIVE_HEALTH_INVALID"
  | .passiveHealthInvalid => ascii "PASSIVE_HEALTH_INVALID"
  | .retryPolicyInvalid => ascii "RETRY_POLICY_INVALID"
  | .retryStatusInvalid => ascii "RETRY_STATUS_INVALID"
  | .tlsMaterialIDInvalid => ascii "TLS_MATERIAL_ID_INVALID"
  | .tlsMaterialIDDuplicate => ascii "TLS_MATERIAL_ID_DUPLICATE"
  | .tlsMaterialRefNotFound => ascii "TLS_MATERIAL_REF_NOT_FOUND"
  | .registryClosed => ascii "REGISTRY_CLOSED"
  | .retiredSnapshotLimit => ascii "RETIRED_SNAPSHOT_LIMIT"

/-- An error text; `quoting` keeps a value that the source prints with `%q`. -/
inductive Cause where
  | text (message : Bytes)
  | quoting (before value after : Bytes)
  deriving DecidableEq, Repr

structure ConfigError where
  code : ConfigCode
  field : Bytes
  upstreamID : Bytes
  cause : Option Cause
  deriving DecidableEq, Repr

/-- `%d`. -/
def decimal (value : Nat) : Bytes :=
  ascii (toString value)

/-- A field path with an index, `base[index]`. -/
def indexed (base : Bytes) (index : Nat) : Bytes :=
  base ++ ascii "[" ++ decimal index ++ ascii "]"

def maxUpstreams : Nat := 10000
def maxSnapshotEndpoints : Nat := 100000
def maxUpstreamEndpoints : Nat := 1000
def maxEndpointWeight : Nat := 1000
def maxHashKeySources : Nat := 8
def maxHashSourceNameBytes : Nat := 256
def maxHashSourceValueBytes : Nat := 4096

def millisecond : Int := 1000000
def second : Int := 1000 * millisecond
def minute : Int := 60 * second
def hour : Int := 60 * minute

/-! ## Endpoints -/

def trimTrailingDot (s : Bytes) : Bytes :=
  if hasSuffix s [46] then s.dropLast else s

def validLabel (label : Bytes) : Bool :=
  decide (0 < label.length ∧ label.length ≤ 63) && label.head? != some 45 &&
    label.getLast? != some 45 && label.all fun byte => isLowerLetter byte || isDigit byte || byte == 45

variable (platform : Platform)

/-- `normalizeHost`; a zone can only follow a percent sign. -/
def normalizeHost (host : Bytes) : Except Bytes Bytes :=
  if validAddr host then
    if host.contains 37 then .error (ascii "scoped IP addresses are not supported")
    else .ok (platform.unmapAddr host)
  else if host.any (128 ≤ ·) then .error (ascii "DNS host must be ASCII")
  else
    let name := toLower platform.tables (trimTrailingDot host)
    if name.length = 0 ∨ 253 < name.length then .error (ascii "DNS host length is invalid")
    else if (split name 46).all validLabel then .ok name
    else .error (ascii "DNS label is invalid")

/-- `strconv.ParseUint(port, 10, 16)`. -/
def parsePort (port : Bytes) : Option Nat :=
  if port.isEmpty || !port.all isDigit || 65535 < decimalValue port then none
  else some (decimalValue port)

/-- `net.JoinHostPort`. -/
def joinHostPort (host port : Bytes) : Bytes :=
  if host.contains 58 then [91] ++ host ++ [93, 58] ++ port else host ++ [58] ++ port

def normalizeEndpoint (raw : Bytes) : Except Bytes Bytes := do
  let parsed ← platform.parseURL raw
  require (parsed.scheme = ascii "http" ∨ parsed.scheme = ascii "https")
    (ascii "scheme http or https is required")
  require (parsed.opaquePart = [] ∧ parsed.hasUser = false ∧ parsed.rawQuery = [] ∧
    parsed.fragment = []) (ascii "URL may contain only scheme and host")
  require (parsed.path = [] ∨ parsed.path = ascii "/") (ascii "path must be empty or /")
  require (parsed.rawPath = []) (ascii "escaped path is not allowed")
  require (parsed.host ≠ []) (ascii "host is required")
  require (parsed.hostname ≠ []) (ascii "host is required")
  require (!hasSuffix parsed.host [58]) (ascii "port is required after colon")
  let port :=
    if parsed.port ≠ [] then parsed.port
    else if parsed.scheme = ascii "https" then ascii "443"
    else ascii "80"
  match parsePort port with
  | none => .error (ascii "port must be in 1..65535")
  | some number =>
    require (number ≠ 0) (ascii "port must be in 1..65535")
    let host ← normalizeHost platform parsed.hostname
    pure (parsed.scheme ++ ascii "://" ++ joinHostPort host (decimal number))

def endpointIdentity (upstreamID canonicalURL : Bytes) : Bytes :=
  upstreamID ++ [0] ++ canonicalURL

/-- What the loop over the endpoints of one upstream has gathered. -/
structure EndpointScan where
  endpoints : List (Endpoint × Bytes)
  active : Nat
  scheme : Bytes
  seen : List Bytes

def EndpointScan.start : EndpointScan :=
  ⟨[], 0, [], []⟩

def scanEndpoint (upstreamID upstreamField : Bytes) (index : Nat)
    (endpoint : Endpoint) (scan : EndpointScan) : Except ConfigError EndpointScan := do
  let field := indexed (upstreamField ++ ascii ".endpoints") index
  require (endpoint.weight ≤ maxEndpointWeight)
    ⟨.upstreamWeightInvalid, field ++ ascii ".weight", upstreamID,
      some (.text (ascii "got " ++ decimal endpoint.weight ++ ascii ", maximum is " ++
        decimal maxEndpointWeight))⟩
  let canonicalURL ← (normalizeEndpoint platform endpoint.url).mapError fun cause =>
    ⟨.upstreamEndpointInvalid, field ++ ascii ".url", upstreamID, some (.text cause)⟩
  let scheme ←
    if 0 < endpoint.weight then do
      let parsed ← (platform.parseURL canonicalURL).mapError fun cause =>
        (⟨.upstreamEndpointInvalid, field ++ ascii ".url", upstreamID, some (.text cause)⟩ :
          ConfigError)
      require (scan.scheme = [] ∨ scan.scheme = parsed.scheme)
        ⟨.upstreamSchemeMixed, upstreamField ++ ascii ".endpoints", upstreamID,
          some (.text (ascii "positive-weight endpoints must use one scheme"))⟩
      pure (if scan.scheme = [] then parsed.scheme else scan.scheme)
    else pure scan.scheme
  let identity := endpointIdentity upstreamID canonicalURL
  require (!scan.seen.contains identity)
    ⟨.upstreamEndpointDuplicate, field ++ ascii ".url", upstreamID, none⟩
  pure
    { endpoints := scan.endpoints ++ [({ endpoint with url := canonicalURL }, identity)]
      active := if 0 < endpoint.weight then scan.active + 1 else scan.active
      scheme := scheme
      seen := identity :: scan.seen }

def scanEndpoints (platform : Platform) (upstreamID upstreamField : Bytes) :
    Nat → List Endpoint → EndpointScan → Except ConfigError EndpointScan
  | _, [], scan => .ok scan
  | index, endpoint :: rest, scan => do
      let next ← scanEndpoint platform upstreamID upstreamField index endpoint scan
      scanEndpoints platform upstreamID upstreamField (index + 1) rest next

/-- The endpoints in the order of their identities, which are distinct. -/
def EndpointScan.sorted (scan : EndpointScan) : List Endpoint :=
  (scan.endpoints.mergeSort fun left right => decide (left.2 ≤ right.2)).map Prod.fst

/-! ## Balancers -/

def normalizeHashSource (source : HashKeySource) (field upstreamID : Bytes) :
    Except ConfigError HashKeySource := do
  let failure := fun (path : Bytes) (cause : Cause) =>
    (⟨.hashKeyInvalid, path, upstreamID, some cause⟩ : ConfigError)
  require (source.name.length ≤ maxHashSourceNameBytes ∧
    source.value.length ≤ maxHashSourceValueBytes)
    (failure field (.text (ascii "source exceeds byte limit")))
  match source.type with
  | .header =>
    require (validToken source.name ∧ source.value = [])
      (failure field (.text (ascii "header requires only a valid name")))
    pure { source with name := canonicalMIMEHeaderKey source.name }
  | .cookie =>
    require (validToken source.name ∧ source.value = [])
      (failure field (.text (ascii "cookie requires only a valid name")))
    pure source
  | .remoteAddr =>
    require (source.name = [] ∧ source.value = [])
      (failure field (.text (ascii "remote_addr accepts neither name nor value")))
    pure source
  | .literal =>
    require (source.name = [] ∧ source.value ≠ [])
      (failure field (.text (ascii "literal requires only a non-empty value")))
    pure source
  | .other text =>
    .error (failure (field ++ ascii ".type")
      (.quoting (ascii "unsupported source type ") text []))

def normalizeHashSources (upstreamID sourcesField : Bytes) :
    Nat → List HashKeySource → Except ConfigError (List HashKeySource)
  | _, [] => .ok []
  | index, source :: rest => do
      let first ← normalizeHashSource source (indexed sourcesField index) upstreamID
      let others ← normalizeHashSources upstreamID sourcesField (index + 1) rest
      pure (first :: others)

def normalizeBalancer (upstreamID upstreamField : Bytes) (balancer : BalancerPolicy) :
    Except ConfigError BalancerPolicy :=
  let sourcesField := upstreamField ++ ascii ".balancer.hash_key.sources"
  let type := if balancer.type = .other [] then .weightedRoundRobin else balancer.type
  match type with
  | .weightedRoundRobin => do
      require balancer.sources.isEmpty
        ⟨.hashKeyInvalid, sourcesField, upstreamID,
          some (.text (ascii "weighted round-robin does not accept a hash key"))⟩
      pure { balancer with type := .weightedRoundRobin }
  | .consistentHash => do
      require (0 < balancer.sources.length ∧ balancer.sources.length ≤ maxHashKeySources)
        ⟨.hashKeyInvalid, sourcesField, upstreamID,
          some (.text (ascii "consistent hash requires 1.." ++ decimal maxHashKeySources ++
            ascii " sources"))⟩
      let sources ← normalizeHashSources upstreamID sourcesField 0 balancer.sources
      pure { type := .consistentHash, sources := sources }
  | .other text =>
    .error ⟨.balancerTypeInvalid, upstreamField ++ ascii ".balancer.type", upstreamID,
      some (.quoting (ascii "unsupported type ") text [])⟩

/-! ## Transports -/

/-- One of the positivity checks of `validateTransport`. -/
def requirePositive (upstreamID upstreamField : Bytes) (name : Bytes) (value : Int) :
    Except ConfigError Unit :=
  require (0 < value)
    ⟨.transportProfileInvalid, upstreamField ++ ascii ".transport." ++ name, upstreamID,
      some (.text (ascii "must be greater than zero"))⟩

def transportTLSError (upstreamID upstreamField : Bytes) (field : Bytes) (cause : Bytes) :
    ConfigError :=
  ⟨.transportTLSInvalid, upstreamField ++ ascii ".transport.tls" ++ field, upstreamID,
    some (.text cause)⟩

/-- The part of `validateTransport` that checks a TLS policy. -/
def validateTransportTLS (upstreamID upstreamField : Bytes)
    (policy : UpstreamTLSPolicy) : Except ConfigError UpstreamTLSPolicy := do
  let spaced := ascii "reference must not contain surrounding whitespace"
  require (trimSpace policy.trustBundleRef = policy.trustBundleRef)
    (transportTLSError upstreamID upstreamField (ascii ".trust_bundle_ref") spaced)
  require (trimSpace policy.clientCertificateRef = policy.clientCertificateRef)
    (transportTLSError upstreamID upstreamField (ascii ".client_certificate_ref") spaced)
  if policy.serverName = [] then pure policy
  else do
    let name ← (normalizeHost platform policy.serverName).mapError
      (transportTLSError upstreamID upstreamField (ascii ".server_name"))
    pure { policy with serverName := name }

def validateProtocol (upstreamID upstreamField : Bytes) (protocol : TransportProtocol) :
    Except ConfigError TransportProtocol :=
  match protocol with
  | .other [] => .ok .http1
  | .other text =>
    .error ⟨.transportProtocolInvalid, upstreamField ++ ascii ".transport.protocol", upstreamID,
      some (.quoting (ascii "unsupported protocol ") text [])⟩
  | known => .ok known

def validateTransport (upstreamID scheme upstreamField : Bytes)
    (transport : TransportConfig) : Except ConfigError TransportConfig := do
  requirePositive upstreamID upstreamField (ascii "dial_timeout") transport.dialTimeout
  requirePositive upstreamID upstreamField (ascii "response_header_timeout")
    transport.responseHeaderTimeout
  requirePositive upstreamID upstreamField (ascii "idle_connection_timeout")
    transport.idleConnectionTimeout
  requirePositive upstreamID upstreamField (ascii "max_idle_connections")
    transport.maxIdleConnections
  requirePositive upstreamID upstreamField (ascii "max_idle_connections_per_host")
    transport.maxIdleConnectionsPerHost
  let protocol ← validateProtocol upstreamID upstreamField transport.protocol
  require (scheme ≠ ascii "http" ∨ transport.tls = none)
    (transportTLSError upstreamID upstreamField []
      (ascii "TLS policy requires HTTPS endpoints"))
  match transport.tls with
  | none => pure { transport with protocol := protocol }
  | some policy => do
      let checked ← validateTransportTLS platform upstreamID upstreamField policy
      pure { transport with protocol := protocol, tls := some checked }

/-! ## Health -/

def validThreshold (value : UInt8) : Bool :=
  decide (1 ≤ value ∧ value ≤ 254)

def validOptionalThreshold (value : UInt8) : Bool :=
  value == 0 || validThreshold value

/-- `normalizeStatuses`: sort, then drop repetitions. -/
def normalizeStatuses (values : List UInt16) : List UInt16 :=
  (values.mergeSort fun left right => decide (left.toNat ≤ right.toNat)).destutter (· ≠ ·)

/-- `statusesOverlap` on two sorted lists. -/
def statusesOverlap : List UInt16 → List UInt16 → Bool
  | left :: lefts, right :: rights =>
    if left = right then true
    else if left < right then statusesOverlap lefts (right :: rights)
    else statusesOverlap (left :: lefts) rights
  | _, _ => false
termination_by lefts rights => lefts.length + rights.length

def normalizeActive (upstreamID field : Bytes) (active : ActiveHealthPolicy) :
    Except ConfigError ActiveHealthPolicy := do
  let failure := fun (cause : Bytes) =>
    (⟨.activeHealthInvalid, field ++ ascii ".active", upstreamID, some (.text cause)⟩ : ConfigError)
  require (10 * millisecond ≤ active.timeout ∧ active.timeout ≤ 30 * second ∧
    100 * millisecond ≤ active.healthyInterval ∧ active.healthyInterval ≤ hour ∧
    100 * millisecond ≤ active.unhealthyInterval ∧ active.unhealthyInterval ≤ hour ∧
    validThreshold active.healthySuccesses ∧ validThreshold active.transportFailures ∧
    validThreshold active.timeouts)
    (failure (ascii "timeout, intervals, or thresholds are outside allowed bounds"))
  match active.type with
  | .http => do
      require (validThreshold active.httpFailures ∧ active.healthyStatuses ≠ [] ∧
        active.unhealthyStatuses ≠ [] ∧ hasPrefix active.path (ascii "/"))
        (failure (ascii "HTTP checker requires thresholds, statuses, and an absolute path"))
      let normalized :=
        { active with
          healthyStatuses := normalizeStatuses active.healthyStatuses
          unhealthyStatuses := normalizeStatuses active.unhealthyStatuses }
      require (!statusesOverlap normalized.healthyStatuses normalized.unhealthyStatuses)
        (failure (ascii "healthy and unhealthy statuses must be disjoint"))
      pure normalized
  | .tcp => do
      require (active.httpFailures = 0 ∧ active.path = [] ∧ active.host = [] ∧
        active.healthyStatuses = [] ∧ active.unhealthyStatuses = [])
        (failure (ascii "TCP checker does not accept HTTP fields"))
      pure active
  | .other text =>
    .error ⟨.activeHealthInvalid, field ++ ascii ".active.type", upstreamID,
      some (.quoting (ascii "unsupported type ") text [])⟩

def normalizePassive (upstreamID field : Bytes) (passive : PassiveHealthPolicy) :
    Except ConfigError PassiveHealthPolicy := do
  let failure := fun (path cause : Bytes) =>
    (⟨.passiveHealthInvalid, field ++ path, upstreamID, some (.text cause)⟩ : ConfigError)
  require (¬ (passive.httpFailures = 0 ∧ passive.transportFailures = 0 ∧ passive.timeouts = 0))
    (failure (ascii ".passive") (ascii "at least one threshold is required"))
  require (validOptionalThreshold passive.httpFailures ∧
    validOptionalThreshold passive.transportFailures ∧ validOptionalThreshold passive.timeouts)
    (failure (ascii ".passive") (ascii "thresholds must be in 1..254 when enabled"))
  let normalized :=
    { passive with unhealthyStatuses := normalizeStatuses passive.unhealthyStatuses }
  require (passive.httpFailures = 0 ∨ normalized.unhealthyStatuses ≠ [])
    (failure (ascii ".passive.unhealthy_statuses") (ascii "HTTP failures require statuses"))
  pure normalized

def normalizeHealth (upstreamID field : Bytes) (policy : HealthPolicy) :
    Except ConfigError HealthPolicy :=
  match policy.active with
  | none =>
    match policy.passive with
    | some _ =>
      .error ⟨.passiveHealthRequiresActive, field ++ ascii ".passive", upstreamID, none⟩
    | none => .ok policy
  | some active => do
      let active ← normalizeActive upstreamID field active
      match policy.passive with
      | none => pure ⟨some active, none⟩
      | some passive => do
          let passive ← normalizePassive upstreamID field passive
          pure ⟨some active, some passive⟩

/-! ## Retry policies -/

def zeroRetryBudget : RetryBudgetPolicy :=
  ⟨0, 0, 0⟩

def retryPolicyIsLegacy (policy : RetryPolicy) : Bool :=
  (policy.maxAttempts == 0 || policy.maxAttempts == 1) && policy.methods.isEmpty &&
    !policy.retryOn.connectFailure && !policy.retryOn.connectionFailure &&
    !policy.retryOn.responseHeaderTimeout && policy.retryOn.statuses.isEmpty &&
    decide (policy.budget = zeroRetryBudget) && decide (policy.totalTimeout = 0)

/-- The policy that a legacy policy is replaced by. -/
def legacyRetryPolicy : RetryPolicy :=
  ⟨1, [], ⟨false, false, false, []⟩, zeroRetryBudget, 0⟩

def retryBounds (policy : RetryPolicy) : Bool :=
  decide (1 ≤ policy.maxAttempts ∧ policy.maxAttempts ≤ 5) &&
    decide (policy.totalTimeout = 0 ∨
      (millisecond ≤ policy.totalTimeout ∧ policy.totalTimeout ≤ 10 * minute)) &&
    decide (policy.budget.ratioPer1000 ≤ 1000) &&
    decide (1 ≤ policy.budget.burst ∧ policy.budget.burst ≤ 1000) &&
    decide (1 ≤ policy.budget.maxInflight ∧ policy.budget.maxInflight ≤ 1000)

def retryableStatus (status : UInt16) : Bool :=
  status == 408 || status == 425 || status == 429 || decide (500 ≤ status ∧ status ≤ 599)

/-- The loop over the methods: upper case, then the token grammar. -/
def upperMethods (tables : UnicodeTables) (upstreamID field : Bytes) :
    Nat → List Bytes → Except ConfigError (List Bytes)
  | _, [] => .ok []
  | index, method :: rest => do
      let upper := toUpper tables method
      require (validToken upper)
        ⟨.retryPolicyInvalid, indexed (field ++ ascii ".methods") index, upstreamID,
          some (.text (ascii "invalid HTTP method"))⟩
      let others ← upperMethods tables upstreamID field (index + 1) rest
      pure (upper :: others)

def checkStatuses (upstreamID field : Bytes) : Nat → List UInt16 → Except ConfigError Unit
  | _, [] => .ok ()
  | index, status :: rest => do
      require (retryableStatus status)
        ⟨.retryStatusInvalid, indexed (field ++ ascii ".retry_on.statuses") index, upstreamID,
          some (.text (ascii "status " ++ decimal status.toNat ++ ascii " is not retryable"))⟩
      checkStatuses upstreamID field (index + 1) rest

def normalizeRetry (tables : UnicodeTables) (upstreamID field : Bytes) (policy : RetryPolicy) :
    Except ConfigError RetryPolicy :=
  if retryPolicyIsLegacy policy then .ok legacyRetryPolicy
  else do
    require (retryBounds policy)
      ⟨.retryPolicyInvalid, field, upstreamID,
        some (.text (ascii "retry policy is outside allowed bounds"))⟩
    let methods ← upperMethods tables upstreamID field 0 policy.methods
    let statuses := normalizeStatuses policy.retryOn.statuses
    checkStatuses upstreamID field 0 statuses
    pure
      { policy with
        methods := (sortStrings methods).destutter (· ≠ ·)
        retryOn := { policy.retryOn with statuses := statuses } }

/-! ## The whole list -/

/-- The body of the loop of `Normalize` once the counts have been checked. -/
def normalizeUpstream (upstreamField : Bytes) (resource : Upstream) :
    Except ConfigError Upstream := do
  let scan ← scanEndpoints platform resource.id upstreamField 0 resource.endpoints .start
  require (scan.active ≠ 0)
    ⟨.upstreamNoActiveEndpoint, upstreamField ++ ascii ".endpoints", resource.id, none⟩
  let balancer ← normalizeBalancer resource.id upstreamField resource.balancer
  let transport ←
    validateTransport platform resource.id scan.scheme upstreamField resource.transport
  let health ← normalizeHealth resource.id (upstreamField ++ ascii ".health") resource.health
  let retry ←
    normalizeRetry platform.tables resource.id (upstreamField ++ ascii ".retry") resource.retry
  pure ⟨resource.id, scan.sorted, balancer, transport, health, retry⟩

/-- The loop of `Normalize`, with the IDs seen and the endpoints counted so far. -/
def normalizeFrom (platform : Platform) :
    Nat → List Upstream → List Bytes → Nat → Except ConfigError (List Upstream)
  | _, [], _, _ => .ok []
  | index, resource :: rest, seen, total => do
      let upstreamField := indexed (ascii "upstreams") index
      let endpointsField := upstreamField ++ ascii ".endpoints"
      require (resource.id ≠ [] ∧ trimSpace resource.id = resource.id)
        ⟨.upstreamIDInvalid, upstreamField ++ ascii ".id", resource.id,
          some (.text (ascii "must be non-empty without surrounding whitespace"))⟩
      require (!seen.contains resource.id)
        ⟨.upstreamIDDuplicate, upstreamField ++ ascii ".id", resource.id,
          some (.text (ascii "duplicate upstream ID"))⟩
      require (resource.endpoints ≠ [])
        ⟨.upstreamEndpointsEmpty, endpointsField, resource.id, none⟩
      require (resource.endpoints.length ≤ maxUpstreamEndpoints)
        ⟨.upstreamEndpointLimit, endpointsField, resource.id,
          some (.text (ascii "got " ++ decimal resource.endpoints.length ++
            ascii " endpoints, maximum is " ++ decimal maxUpstreamEndpoints))⟩
      require (total + resource.endpoints.length ≤ maxSnapshotEndpoints)
        ⟨.upstreamEndpointLimit, endpointsField, resource.id,
          some (.text (ascii "snapshot endpoints exceed " ++ decimal maxSnapshotEndpoints))⟩
      let first ← normalizeUpstream platform upstreamField resource
      let others ← normalizeFrom platform (index + 1) rest (resource.id :: seen)
        (total + resource.endpoints.length)
      pure (first :: others)

def normalize (resources : List Upstream) :
    Except ConfigError (List Upstream) := do
  require (resources.length ≤ maxUpstreams)
    ⟨.upstreamEndpointLimit, ascii "upstreams", [],
      some (.text (ascii "got " ++ decimal resources.length ++ ascii " upstreams, maximum is " ++
        decimal maxUpstreams))⟩
  normalizeFrom platform 0 resources [] 0

/-! ## What normalized upstreams satisfy -/

/-- The active part of an accepted health policy was accepted on its own. -/
theorem exists_normalizeActive {upstreamID field : Bytes} {raw policy : HealthPolicy}
    (h : normalizeHealth upstreamID field raw = .ok policy) {active : ActiveHealthPolicy}
    (hactive : policy.active = some active) :
    ∃ source, normalizeActive upstreamID field source = .ok active := by
  unfold normalizeHealth at h
  split at h
  · rename_i hnone
    split at h
    · contradiction
    · rw [← Except.ok.inj h, hnone] at hactive
      contradiction
  · rename_i source _
    simp only [bind_eq_ok] at h
    obtain ⟨normalized, hnormalized, h⟩ := h
    split at h
    · rw [← Except.ok.inj h] at hactive
      cases hactive
      exact ⟨source, hnormalized⟩
    · simp only [bind_eq_ok] at h
      obtain ⟨_, _, h⟩ := h
      rw [← Except.ok.inj h] at hactive
      cases hactive
      exact ⟨source, hnormalized⟩

/-- An accepted check is one of the two that are known, and asks for at least one
success. -/
theorem normalizeActive_spec {upstreamID field : Bytes} {raw active : ActiveHealthPolicy}
    (h : normalizeActive upstreamID field raw = .ok active) :
    (active.type = .http ∨ active.type = .tcp) ∧ 1 ≤ active.healthySuccesses.toNat := by
  simp only [normalizeActive, bind_eq_ok, require_eq_ok, decide_eq_true_eq] at h
  obtain ⟨_, ⟨_, _, _, _, _, _, hsuccesses, _, _⟩, hresult⟩ := h
  have hpos : 1 ≤ raw.healthySuccesses.toNat := by
    simp only [validThreshold, decide_eq_true_eq] at hsuccesses
    exact UInt8.le_iff_toNat_le.mp hsuccesses.1
  split at hresult
  · rename_i htype
    simp only [bind_eq_ok, require_eq_ok] at hresult
    obtain ⟨_, _, _, _, hresult⟩ := hresult
    rw [← Except.ok.inj hresult]
    exact ⟨Or.inl htype, hpos⟩
  · rename_i htype
    simp only [bind_eq_ok, require_eq_ok] at hresult
    obtain ⟨_, _, hresult⟩ := hresult
    rw [← Except.ok.inj hresult]
    exact ⟨Or.inr htype, hpos⟩
  · contradiction

/-- Every upstream that comes out was normalized on its own. -/
theorem exists_normalizeUpstream {platform : Platform} {index total : Nat}
    {resources normalized : List Upstream} {seen : List Bytes}
    (h : normalizeFrom platform index resources seen total = .ok normalized) :
    ∀ result ∈ normalized, ∃ field resource, resource ∈ resources ∧
      normalizeUpstream platform field resource = .ok result := by
  induction resources generalizing index total seen normalized with
  | nil =>
    obtain rfl : [] = normalized := by simpa [normalizeFrom] using h
    simp
  | cons resource rest ih =>
    simp only [normalizeFrom, bind_eq_ok, require_eq_ok] at h
    obtain ⟨_, _, _, _, _, _, _, _, _, _, first, hfirst, others, hothers, hresult⟩ := h
    cases hresult
    refine List.forall_mem_cons.mpr ⟨⟨_, resource, List.mem_cons_self, hfirst⟩, ?_⟩
    intro result hresult
    obtain ⟨field, source, hsource, hnormalized⟩ := ih hothers result hresult
    exact ⟨field, source, List.mem_cons_of_mem _ hsource, hnormalized⟩

/-- The protocol is one of the three that the transport supports. -/
def KnownProtocol : TransportProtocol → Prop
  | .other _ => False
  | _ => True

theorem validateProtocol_known {upstreamID field : Bytes} {protocol result : TransportProtocol}
    (h : validateProtocol upstreamID field protocol = .ok result) : KnownProtocol result := by
  unfold validateProtocol at h
  split at h
  · rw [← Except.ok.inj h]
    trivial
  · contradiction
  · rename_i hother
    rw [← Except.ok.inj h]
    cases protocol with
    | other text =>
      cases text with
      | nil => exact absurd rfl (by assumption)
      | cons first rest => exact absurd rfl (hother _)
    | auto => trivial
    | http1 => trivial
    | http2 => trivial

theorem normalize_knownProtocol {platform : Platform} {resources normalized : List Upstream}
    (h : normalize platform resources = .ok normalized) :
    ∀ result ∈ normalized, KnownProtocol result.transport.protocol := by
  simp only [normalize, bind_eq_ok, require_eq_ok] at h
  obtain ⟨_, _, h⟩ := h
  intro result hresult
  obtain ⟨field, resource, _, hnormalized⟩ := exists_normalizeUpstream h result hresult
  simp only [normalizeUpstream, bind_eq_ok, require_eq_ok] at hnormalized
  obtain ⟨scan, _, _, _, balancer, _, transport, htransport, _, _, _, _, hpure⟩ := hnormalized
  cases hpure
  simp only [validateTransport, bind_eq_ok, require_eq_ok] at htransport
  obtain ⟨_, _, _, _, _, _, _, _, _, _, protocol, hprotocol, _, _, htransport⟩ := htransport
  have hknown := validateProtocol_known hprotocol
  split at htransport
  · rw [← Except.ok.inj htransport]
    exact hknown
  simp only [bind_eq_ok] at htransport
  obtain ⟨checked, _, htransport⟩ := htransport
  rw [← Except.ok.inj htransport]
  exact hknown

end GGateway.Upstream
