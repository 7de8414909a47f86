import GGateway.Text.Bytes

/-!
# Canonical resources

The records of `internal/model/resources.go` that the modelled packages read.
-/

namespace GGateway.Model

open Text

/-- `PredicateOperator` is a string in the source; any text other than the five
named ones is kept so that the compiler can reject it. -/
inductive PredicateOperator where
  | exists
  | notExists
  | equals
  | notEquals
  | oneOf
  | other (text : Bytes)
  deriving DecidableEq, Repr

def PredicateOperator.text : PredicateOperator → Bytes
  | .exists => ascii "exists"
  | .notExists => ascii "not_exists"
  | .equals => ascii "equals"
  | .notEquals => ascii "not_equals"
  | .oneOf => ascii "one_of"
  | .other text => text

structure Predicate where
  name : Bytes
  operator : PredicateOperator
  values : List Bytes
  deriving DecidableEq, Repr

structure RouteMatch where
  hosts : List Bytes
  path : Bytes
  methods : List Bytes
  headers : List Predicate
  queries : List Predicate
  deriving DecidableEq, Repr

/-! ## Upstreams -/

/-- `BalancerType`; the empty text stands for an absent value. -/
inductive BalancerType where
  | weightedRoundRobin
  | consistentHash
  | other (text : Bytes)
  deriving DecidableEq, Repr

inductive HashSourceType where
  | header
  | cookie
  | remoteAddr
  | literal
  | other (text : Bytes)
  deriving DecidableEq, Repr

inductive HealthCheckType where
  | http
  | tcp
  | other (text : Bytes)
  deriving DecidableEq, Repr

/-- `TransportProtocol`; the empty text stands for an absent value. -/
inductive TransportProtocol where
  | auto
  | http1
  | http2
  | other (text : Bytes)
  deriving DecidableEq, Repr

structure Endpoint where
  url : Bytes
  weight : Nat
  deriving DecidableEq, Repr

structure HashKeySource where
  type : HashSourceType
  name : Bytes
  value : Bytes
  deriving DecidableEq, Repr

structure BalancerPolicy where
  type : BalancerType
  sources : List HashKeySource
  deriving DecidableEq, Repr

structure UpstreamTLSPolicy where
  trustBundleRef : Bytes
  clientCertificateRef : Bytes
  serverName : Bytes
  deriving DecidableEq, Repr

/-- `TransportConfig`; durations are in nanoseconds. -/
structure TransportConfig where
  protocol : TransportProtocol
  tls : Option UpstreamTLSPolicy
  dialTimeout : Int
  responseHeaderTimeout : Int
  idleConnectionTimeout : Int
  maxIdleConnections : Int
  maxIdleConnectionsPerHost : Int
  deriving DecidableEq, Repr

structure ActiveHealthPolicy where
  type : HealthCheckType
  timeout : Int
  healthyInterval : Int
  unhealthyInterval : Int
  healthySuccesses : UInt8
  httpFailures : UInt8
  transportFailures : UInt8
  timeouts : UInt8
  healthyStatuses : List UInt16
  unhealthyStatuses : List UInt16
  path : Bytes
  host : Bytes
  deriving DecidableEq, Repr

structure PassiveHealthPolicy where
  httpFailures : UInt8
  transportFailures : UInt8
  timeouts : UInt8
  unhealthyStatuses : List UInt16
  deriving DecidableEq, Repr

structure HealthPolicy where
  active : Option ActiveHealthPolicy
  passive : Option PassiveHealthPolicy
  deriving DecidableEq, Repr

structure RetryOnPolicy where
  connectFailure : Bool
  connectionFailure : Bool
  responseHeaderTimeout : Bool
  statuses : List UInt16
  deriving DecidableEq, Repr

structure RetryBudgetPolicy where
  ratioPer1000 : UInt16
  burst : UInt16
  maxInflight : UInt16
  deriving DecidableEq, Repr

structure RetryPolicy where
  maxAttempts : UInt8
  methods : List Bytes
  retryOn : RetryOnPolicy
  budget : RetryBudgetPolicy
  totalTimeout : Int
  deriving DecidableEq, Repr

structure Upstream where
  id : Bytes
  endpoints : List Endpoint
  balancer : BalancerPolicy
  transport : TransportConfig
  health : HealthPolicy
  retry : RetryPolicy
  deriving DecidableEq, Repr

/-! ## Routes and services -/

/-- `RouteResiliencePolicy`; an absent field inherits from the upstream. -/
structure RouteResiliencePolicy where
  totalTimeout : Option Int
  maxAttempts : Option UInt8
  methods : Option (List Bytes)
  retryOn : Option RetryOnPolicy
  deriving DecidableEq, Repr

structure WebSocketPolicyOverride where
  enabled : Option Bool
  idleTimeout : Option Int
  deriving DecidableEq, Repr

structure WebSocketPolicy where
  enabled : Bool
  idleTimeout : Int
  deriving DecidableEq, Repr

structure PluginAttachment where
  name : Bytes
  enabled : Bool
  rawConfig : Bytes
  deriving DecidableEq, Repr

structure Route where
  id : Bytes
  priority : Int
  routeMatch : RouteMatch
  serviceRef : Bytes
  upstreamRef : Bytes
  plugins : List PluginAttachment
  resilience : RouteResiliencePolicy
  webSocket : WebSocketPolicyOverride
  deriving DecidableEq, Repr

structure Service where
  id : Bytes
  upstreamRef : Bytes
  plugins : List PluginAttachment
  webSocket : WebSocketPolicyOverride
  deriving DecidableEq, Repr

structure SNIBinding where
  certificateRef : Bytes
  hosts : List Bytes
  deriving DecidableEq, Repr

structure DownstreamTLSPolicy where
  defaultCertificateRef : Bytes
  sniBindings : List SNIBinding
  deriving DecidableEq, Repr

/-- A certificate in DER; the length of a slice is an `int`. -/
abbrev Document :=
  { bytes : Bytes // bytes.length < 2 ^ 63 }

/-- A piece of TLS material: the CA set of a trust bundle in canonical order, or the chain
of a certificate with its key.  A trust bundle has no key. -/
structure Material where
  id : Bytes
  fingerprint : Bytes
  documents : List Document
  privateKey : Bytes
  deriving DecidableEq, Repr

/-- `ResourceSet`; `none` among the materials is a nil pointer. -/
structure ResourceSet where
  routes : List Route
  services : List Service
  upstreams : List Upstream
  certificates : List (Option Material)
  downstreamTLS : Option DownstreamTLSPolicy
  trustBundles : List (Option Material)
  deriving DecidableEq, Repr

end GGateway.Model
