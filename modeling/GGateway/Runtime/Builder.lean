import GGateway.Router.Compile
import GGateway.Upstream.Registry

/-!
# Building a snapshot

`Builder.Build` of `internal/runtime/builder.go` with the checks of
`validateResources`.  The compilers of the downstream TLS policy and of plugin
chains enter through `Compilers`; nothing below depends on what they accept.
-/

set_option linter.dupNamespace false

namespace GGateway.Runtime

open Text Model Library.Checks
open GGateway.Upstream (Plan Cause PrepareError decimal second zeroRetryBudget)

/-! ## Errors -/

inductive BuildStage where
  | validate
  | resolve
  | plugin
  | router
  deriving DecidableEq, Repr

/-- What `downstreamtls.Compile` reports: one of its coded errors, or another. -/
inductive DownstreamTLSError where
  | config (code resourceID field : Bytes)
  | other (cause : Cause)
  deriving DecidableEq, Repr

inductive BuildCause where
  | message (cause : Cause)
  | upstream (cause : PrepareError)
  | downstreamTLS (cause : DownstreamTLSError)
  | router (cause : Router.CompileError)
  deriving DecidableEq

structure BuildError where
  code : Bytes
  stage : BuildStage
  revision : Nat
  resourceKind : Bytes
  resourceID : Bytes
  field : Bytes
  cause : BuildCause
  deriving DecidableEq

variable (revision : Nat)

/-- An error of the whole revision with a fixed text. -/
def revisionError (code message : Bytes) : BuildError :=
  ⟨code, .validate, revision, [], [], [], .message (.text message)⟩

/-! ## Validation -/

/-- `validatePluginScope`, with the position and the names seen so far. -/
def validatePluginScope : Nat → List PluginAttachment → List Bytes → Except Cause Unit
  | _, [], _ => .ok ()
  | index, attachment :: rest, seen => do
      require (trimSpace attachment.name ≠ [])
        (.text (ascii "plugin " ++ decimal index ++ ascii " name must not be empty"))
      require (!seen.contains attachment.name)
        (.quoting (ascii "duplicate plugin name ") attachment.name [])
      validatePluginScope (index + 1) rest (attachment.name :: seen)

/-- The loop of `validateResourceIDs` over the resources of one kind. -/
def validateResourceIDs (revision : Nat) (kind : Bytes) :
    Nat → List Bytes → List Bytes → Except BuildError Unit
  | _, [], _ => .ok ()
  | index, id :: rest, seen => do
      require (trimSpace id ≠ [] ∧ trimSpace id = id)
        ⟨ascii "RESOURCE_ID_INVALID", .validate, revision, kind, id, ascii "id",
          .message (.text (ascii "ID at index " ++ decimal index ++
            ascii " must be non-empty without surrounding whitespace"))⟩
      require (!seen.contains id)
        ⟨ascii "RESOURCE_ID_DUPLICATE", .validate, revision, kind, id, ascii "id",
          .message (.text (ascii "duplicate ID"))⟩
      validateResourceIDs revision kind (index + 1) rest (id :: seen)

/-- A reference that names nothing. -/
def referenceError (kind id field what ref : Bytes) : BuildError :=
  ⟨ascii "REFERENCE_NOT_FOUND", .resolve, revision, kind, id, field,
    .message (.quoting (what ++ ascii " ") ref (ascii " does not exist"))⟩

/-- The checks that services and routes share: plugins, then the idle timeout. -/
def validateAttachments (kind id : Bytes) (plugins : List PluginAttachment)
    (webSocket : WebSocketPolicyOverride) : Except BuildError Unit := do
  (validatePluginScope 0 plugins []).mapError fun cause =>
    (⟨ascii "PLUGIN_SCOPE_INVALID", .validate, revision, kind, id, ascii "plugins",
      .message cause⟩ : BuildError)
  require (∀ timeout ∈ webSocket.idleTimeout, 0 ≤ timeout)
    ⟨ascii "WEBSOCKET_POLICY_INVALID", .validate, revision, kind, id,
      ascii "websocket.idle_timeout", .message (.text (ascii "idle timeout must be non-negative"))⟩

def validateService (upstreams : List Upstream) (service : Service) :
    Except BuildError Unit := do
  require (∃ resource ∈ upstreams, resource.id = service.upstreamRef)
    (referenceError revision (ascii "service") service.id (ascii "upstream_ref")
      (ascii "upstream") service.upstreamRef)
  validateAttachments revision (ascii "service") service.id service.plugins service.webSocket

def validateRoute (services : List Service) (upstreams : List Upstream)
    (route : Route) : Except BuildError Unit := do
  require (¬ (route.serviceRef = [] ↔ route.upstreamRef = []))
    ⟨ascii "ROUTE_TARGET_INVALID", .validate, revision, ascii "route", route.id, [],
      .message (.text (ascii "exactly one of service_ref or upstream_ref must be set"))⟩
  require (route.serviceRef = [] ∨ ∃ service ∈ services, service.id = route.serviceRef)
    (referenceError revision (ascii "route") route.id (ascii "service_ref") (ascii "service")
      route.serviceRef)
  require (route.upstreamRef = [] ∨ ∃ resource ∈ upstreams, resource.id = route.upstreamRef)
    (referenceError revision (ascii "route") route.id (ascii "upstream_ref") (ascii "upstream")
      route.upstreamRef)
  validateAttachments revision (ascii "route") route.id route.plugins route.webSocket

/-- Run a check on every element of a list. -/
def checkEach {α ε : Type} (check : α → Except ε Unit) : List α → Except ε Unit
  | [] => .ok ()
  | value :: rest => do
      check value
      checkEach check rest

def validateResources (resources : ResourceSet) : Except BuildError Unit := do
  require (revision ≠ 0)
    (revisionError 0 (ascii "REVISION_INVALID") (ascii "revision must be greater than zero"))
  require (resources.routes ≠ [])
    (revisionError revision (ascii "ROUTES_EMPTY") (ascii "at least one route is required"))
  validateResourceIDs revision (ascii "route") 0 (resources.routes.map (·.id)) []
  validateResourceIDs revision (ascii "service") 0 (resources.services.map (·.id)) []
  validateResourceIDs revision (ascii "upstream") 0 (resources.upstreams.map (·.id)) []
  checkEach (validateService revision resources.upstreams) resources.services
  checkEach (validateRoute revision resources.services resources.upstreams) resources.routes

/-! ## Effective policies -/

def defaultWebSocketIdleTimeout : Int :=
  60 * second

def effectiveWebSocketPolicy (service route : WebSocketPolicyOverride) : WebSocketPolicy where
  enabled := route.enabled.getD (service.enabled.getD false)
  idleTimeout := route.idleTimeout.getD (service.idleTimeout.getD defaultWebSocketIdleTimeout)

def effectiveRetryPolicy (base : RetryPolicy) (override : RouteResiliencePolicy) : RetryPolicy where
  maxAttempts := override.maxAttempts.getD (if base.maxAttempts = 0 then 1 else base.maxAttempts)
  methods := override.methods.getD base.methods
  retryOn := override.retryOn.getD base.retryOn
  budget := base.budget
  totalTimeout := override.totalTimeout.getD base.totalTimeout

/-! ## Snapshots -/

/-- A compiled plugin chain; the hooks themselves are not kept. -/
structure Chain where
  names : List Bytes
  scratchSlots : Nat
  deriving DecidableEq, Repr

structure DownstreamStats where
  certificateCount : Nat
  exactCount : Nat
  wildcardCount : Nat
  earliestExpiry : Int
  deriving DecidableEq, Repr

structure CompiledRoute where
  id : Bytes
  service : Option Bytes
  upstreamID : Bytes
  plan : Plan
  plugins : Chain
  retry : RetryPolicy
  webSocket : WebSocketPolicy
  deriving DecidableEq

structure Stats where
  revision : Nat
  routeCount : Nat
  serviceCount : Nat
  upstreamCount : Nat
  pluginCount : Nat
  downstream : DownstreamStats
  deriving DecidableEq, Repr

structure Snapshot where
  revision : Nat
  router : Router.Router
  routes : List CompiledRoute
  stats : Stats

/-- What `Build` calls: `downstreamtls.Compile` at a time, and `CompileChain` of
the plugin registry. -/
structure Compilers where
  tables : UnicodeTables
  choices : Router.CompileChoices
  downstreamTLS : Int → DownstreamTLSPolicy → List (Option Material) →
    Except DownstreamTLSError DownstreamStats
  pluginChain : List PluginAttachment → List PluginAttachment → Except Cause Chain

def downstreamError : DownstreamTLSError → BuildError
  | .config code resourceID field =>
    ⟨code, .validate, revision, ascii "certificate", resourceID, field,
      .downstreamTLS (.config code resourceID field)⟩
  | .other cause =>
    ⟨ascii "DOWNSTREAM_TLS_COMPILE_FAILED", .validate, revision, [], [], ascii "downstream_tls",
      .downstreamTLS (.other cause)⟩

/-- The zero value that a map of services returns for a missing key. -/
def Service.zero : Service :=
  ⟨[], [], [], ⟨none, none⟩⟩

/-- The zero retry policy and protocol, which a missing upstream would have. -/
def retryOf (upstreams : List Upstream) (id : Bytes) : RetryPolicy :=
  match upstreams.find? (·.id == id) with
  | some resource => resource.retry
  | none => ⟨0, [], ⟨false, false, false, []⟩, zeroRetryBudget, 0⟩

def protocolOf (upstreams : List Upstream) (id : Bytes) : TransportProtocol :=
  match upstreams.find? (·.id == id) with
  | some resource => resource.transport.protocol
  | none => .other []

/-- The body of the loop of `Build` over the routes.  IDs are distinct here, so
that the first entry with an ID is the one a map would hold. -/
def buildRoute (compilers : Compilers) (revision : Nat) (resources : ResourceSet)
    (plans : List (Bytes × Plan)) (route : Route) : Except BuildError CompiledRoute := do
  let service : Option Service :=
    if route.serviceRef = [] then none
    else some ((resources.services.find? (·.id == route.serviceRef)).getD Service.zero)
  let upstreamID := (service.map (·.upstreamRef)).getD route.upstreamRef
  match plans.lookup upstreamID with
  | none =>
    .error ⟨ascii "REFERENCE_NOT_FOUND", .resolve, revision, ascii "route", route.id,
      ascii "upstream_ref", .message (.quoting (ascii "upstream plan ") upstreamID
        (ascii " does not exist"))⟩
  | some plan => do
      let webSocket := effectiveWebSocketPolicy
        ((service.map (·.webSocket)).getD ⟨none, none⟩) route.webSocket
      require (¬ (webSocket.enabled = true ∧
          protocolOf resources.upstreams upstreamID = .http2))
        ⟨ascii "WEBSOCKET_UPSTREAM_PROTOCOL_INVALID", .resolve, revision, ascii "route", route.id,
          ascii "websocket.enabled", .message (.text
            (ascii "strict HTTP/2 upstream does not support classic WebSocket upgrades"))⟩
      let chain ← (compilers.pluginChain ((service.map (·.plugins)).getD []) route.plugins).mapError
        fun cause =>
          (⟨ascii "PLUGIN_COMPILE_FAILED", .plugin, revision, ascii "route", route.id,
            ascii "plugins", .message cause⟩ : BuildError)
      pure
        { id := route.id
          service := service.map (·.id)
          upstreamID := upstreamID
          plan := plan
          plugins := chain
          retry := effectiveRetryPolicy (retryOf resources.upstreams upstreamID) route.resilience
          webSocket := webSocket }

def buildRoutes (compilers : Compilers) (revision : Nat) (resources : ResourceSet)
    (plans : List (Bytes × Plan)) : List Route → Except BuildError (List CompiledRoute)
  | [] => .ok []
  | route :: rest => do
      let first ← buildRoute compilers revision resources plans route
      let others ← buildRoutes compilers revision resources plans rest
      pure (first :: others)

/-- The specifications handed to the router: each route with its position. -/
def routeSpecs : Nat → List Route → List Router.RouteSpec
  | _, [] => []
  | index, route :: rest =>
    ⟨index, route.id, route.priority, route.routeMatch⟩ :: routeSpecs (index + 1) rest

/-- The downstream policy; without one the legacy provider stays. -/
def compileDownstream (compilers : Compilers) (now : Int) (revision : Nat)
    (resources : ResourceSet) : Except BuildError DownstreamStats :=
  match resources.downstreamTLS with
  | none => .ok ⟨0, 0, 0, 0⟩
  | some policy =>
    (compilers.downstreamTLS now policy resources.certificates).mapError (downstreamError revision)

/-- `Build` at time `now`, on the plans of a candidate. -/
def build (compilers : Compilers) (now : Int) (revision : Nat) (resources : ResourceSet)
    (plans : List (Bytes × Plan)) : Except BuildError Snapshot := do
  validateResources revision resources
  let downstream ← compileDownstream compilers now revision resources
  let routes ← buildRoutes compilers revision resources plans resources.routes
  let router ← (Router.compile compilers.tables compilers.choices
    (routeSpecs 0 resources.routes)).mapError fun cause =>
      (⟨ascii "ROUTER_COMPILE_FAILED", .router, revision, [], [], ascii "routes",
        .router cause⟩ : BuildError)
  pure
    { revision := revision
      router := router
      routes := routes
      stats :=
        { revision := revision
          routeCount := routes.length
          serviceCount := resources.services.length
          upstreamCount := resources.upstreams.length
          pluginCount := (routes.map fun route => route.plugins.names.length).sum
          downstream := downstream } }

end GGateway.Runtime
