import GGateway.Upstream.Config

/-!
# Transport profiles and resource keys

What decides whether two upstreams share a runtime: the transport key built from
the compiled profile, and the keys of health trackers, retry budgets and
selection states.  Source files `profile.go`, `transport.go`, `fingerprint.go`
and `endpoint.go` of `internal/upstream`.
-/

namespace GGateway.Upstream

open Text Model Library.Checks

/-! ## TLS material -/

structure MaterialIndex where
  certificates : List (Bytes × Material)
  trustBundles : List (Bytes × Material)

/-- One of the two loops of `newMaterialIndex`.  `seen` maps the IDs of both
kinds to the field that declared them. -/
def indexMaterials (name what : Bytes) :
    Nat → List (Option Material) → List (Bytes × Bytes) →
      Except ConfigError (List (Bytes × Material) × List (Bytes × Bytes))
  | _, [], seen => .ok ([], seen)
  | position, material :: rest, seen => do
      let field := indexed name position ++ ascii ".id"
      let invalid : ConfigError :=
        ⟨.tlsMaterialIDInvalid, field, [], some (.text (what ++ ascii " ID must not be empty"))⟩
      match material with
      | none => .error invalid
      | some material =>
        require (material.id ≠ []) invalid
        match seen.lookup material.id with
        | some previous =>
          .error ⟨.tlsMaterialIDDuplicate, field, [],
            some (.quoting (ascii "ID ") material.id (ascii " duplicates " ++ previous))⟩
        | none => do
            let (others, seen) ←
              indexMaterials name what (position + 1) rest ((material.id, field) :: seen)
            pure ((material.id, material) :: others, seen)

def newMaterialIndex (resources : ResourceSet) : Except ConfigError MaterialIndex := do
  let (certificates, seen) ←
    indexMaterials (ascii "certificates") (ascii "certificate") 0 resources.certificates []
  let (trustBundles, _) ←
    indexMaterials (ascii "trust_bundles") (ascii "trust-bundle") 0 resources.trustBundles seen
  pure ⟨certificates, trustBundles⟩

/-! ## Transport profiles -/

structure TransportProfile where
  scheme : Bytes
  protocol : TransportProtocol
  transport : TransportConfig
  trustBundle : Option Material
  clientCertificate : Option Material
  serverName : Bytes
  deriving DecidableEq

/-- The loop that finds the scheme of the positive-weight endpoints. -/
def profileScheme (platform : Platform) (upstreamID : Bytes) :
    List Endpoint → Bytes → Except ConfigError Bytes
  | [], scheme => .ok scheme
  | endpoint :: rest, scheme =>
    if endpoint.weight = 0 then profileScheme platform upstreamID rest scheme
    else do
      let parsed ← (platform.parseURL endpoint.url).mapError fun cause =>
        (⟨.upstreamEndpointInvalid, ascii "upstreams.endpoints", upstreamID,
          some (.text cause)⟩ : ConfigError)
      if scheme = [] then profileScheme platform upstreamID rest parsed.scheme
      else do
        require (scheme = parsed.scheme)
          ⟨.upstreamSchemeMixed, ascii "upstreams.endpoints", upstreamID, none⟩
        profileScheme platform upstreamID rest scheme

/-- Resolve a reference that may be empty. -/
def resolveMaterial (upstreamID field what : Bytes) (materials : List (Bytes × Material))
    (reference : Bytes) : Except ConfigError (Option Material) :=
  if reference = [] then .ok none
  else
    match materials.lookup reference with
    | some material => .ok (some material)
    | none =>
      .error ⟨.tlsMaterialRefNotFound, ascii "upstreams.transport.tls." ++ field, upstreamID,
        some (.quoting (what ++ ascii " ") reference (ascii " does not resolve"))⟩

def compileTransportProfile (platform : Platform) (resource : Upstream)
    (materials : MaterialIndex) : Except ConfigError TransportProfile := do
  let scheme ← profileScheme platform resource.id resource.endpoints []
  require (scheme ≠ [])
    ⟨.upstreamNoActiveEndpoint, ascii "upstreams.endpoints", resource.id, none⟩
  let profile : TransportProfile :=
    ⟨scheme, resource.transport.protocol, resource.transport, none, none, []⟩
  match resource.transport.tls with
  | none => pure profile
  | some policy => do
      let bundle ← resolveMaterial resource.id (ascii "trust_bundle_ref") (ascii "trust bundle")
        materials.trustBundles policy.trustBundleRef
      let certificate ← resolveMaterial resource.id (ascii "client_certificate_ref")
        (ascii "certificate") materials.certificates policy.clientCertificateRef
      pure
        { profile with
          serverName := policy.serverName
          trustBundle := bundle
          clientCertificate := certificate }

structure TransportKey where
  scheme : Bytes
  serverName : Bytes
  protocol : TransportProtocol
  dialTimeout : Int
  responseHeaderTimeout : Int
  idleConnectionTimeout : Int
  maxIdleConnections : Int
  maxIdleConnectionsPerHost : Int
  tlsEnabled : Bool
  tlsPolicyVersion : UInt8
  trustSystem : Bool
  trustFingerprint : Bytes
  clientFingerprint : Bytes
  minTLSVersion : UInt16
  disableCompression : Bool
  deriving DecidableEq

def zeroFingerprint : Bytes :=
  List.replicate 32 0

def tlsTransportPolicyVersion : UInt8 := 1

/-- `tls.VersionTLS12`. -/
def versionTLS12 : UInt16 := 0x0303

def makeTransportKey (profile : TransportProfile) : TransportKey :=
  let key : TransportKey :=
    { scheme := profile.scheme
      serverName := profile.serverName
      protocol := profile.protocol
      dialTimeout := profile.transport.dialTimeout
      responseHeaderTimeout := profile.transport.responseHeaderTimeout
      idleConnectionTimeout := profile.transport.idleConnectionTimeout
      maxIdleConnections := profile.transport.maxIdleConnections
      maxIdleConnectionsPerHost := profile.transport.maxIdleConnectionsPerHost
      tlsEnabled := false
      tlsPolicyVersion := 0
      trustSystem := false
      trustFingerprint := zeroFingerprint
      clientFingerprint := zeroFingerprint
      minTLSVersion := 0
      disableCompression := true }
  if profile.scheme = ascii "https" then
    { key with
      tlsEnabled := true
      tlsPolicyVersion := tlsTransportPolicyVersion
      trustSystem := profile.trustBundle.isNone
      minTLSVersion := versionTLS12
      trustFingerprint := (profile.trustBundle.map Material.fingerprint).getD zeroFingerprint
      clientFingerprint :=
        (profile.clientCertificate.map Material.fingerprint).getD zeroFingerprint }
  else key

theorem makeTransportKey_protocol (profile : TransportProfile) :
    (makeTransportKey profile).protocol = profile.protocol := by
  unfold makeTransportKey
  split <;> rfl

/-- A compiled profile keeps the protocol of its upstream. -/
theorem compileTransportProfile_protocol {platform : Platform} {resource : Upstream}
    {materials : MaterialIndex} {profile : TransportProfile}
    (h : compileTransportProfile platform resource materials = .ok profile) :
    profile.protocol = resource.transport.protocol := by
  simp only [compileTransportProfile, bind_eq_ok, require_eq_ok] at h
  obtain ⟨scheme, _, _, _, h⟩ := h
  split at h
  · rw [← Except.ok.inj h]
  simp only [bind_eq_ok] at h
  obtain ⟨_, _, _, _, h⟩ := h
  rw [← Except.ok.inj h]

/-! ## Fingerprints -/

/-- Big-endian bytes of a machine word of the given width. -/
def bigEndian : Nat → Nat → Bytes
  | 0, _ => []
  | width + 1, value => UInt8.ofNat (value / 256 ^ width) :: bigEndian width value

/-- The unsigned 64-bit image of a duration or an `int`. -/
def writeUint64 (value : Int) : Bytes :=
  bigEndian 8 (value % 2 ^ 64).toNat

def writeUint16 (value : UInt16) : Bytes :=
  bigEndian 2 value.toNat

def writeBool (value : Bool) : Bytes :=
  [if value then 1 else 0]

def writeString (value : Bytes) : Bytes :=
  writeUint64 value.length ++ value

def writeStatuses (values : List UInt16) : Bytes :=
  writeUint64 values.length ++ values.flatMap writeUint16

def protocolText : TransportProtocol → Bytes
  | .auto => ascii "auto"
  | .http1 => ascii "http1"
  | .http2 => ascii "http2"
  | .other text => text

def healthCheckText : HealthCheckType → Bytes
  | .http => ascii "http"
  | .tcp => ascii "tcp"
  | .other text => text

def writeTransportKey (key : TransportKey) : Bytes :=
  writeString key.scheme ++ writeString key.serverName ++
    writeString (protocolText key.protocol) ++ writeUint64 key.dialTimeout ++
    writeUint64 key.responseHeaderTimeout ++ writeUint64 key.idleConnectionTimeout ++
    writeUint64 key.maxIdleConnections ++ writeUint64 key.maxIdleConnectionsPerHost ++
    writeBool key.tlsEnabled ++ [key.tlsPolicyVersion] ++ writeBool key.trustSystem ++
    key.trustFingerprint ++ key.clientFingerprint ++ writeUint16 key.minTLSVersion ++
    writeBool key.disableCompression

def writeActive : Option ActiveHealthPolicy → Bytes
  | none => [0]
  | some active =>
    [1] ++ writeString (healthCheckText active.type) ++ writeUint64 active.timeout ++
      writeUint64 active.healthyInterval ++ writeUint64 active.unhealthyInterval ++
      [active.healthySuccesses, active.httpFailures, active.transportFailures,
        active.timeouts] ++
      writeStatuses active.healthyStatuses ++ writeStatuses active.unhealthyStatuses ++
      writeString active.path ++ writeString active.host

def writePassive : Option PassiveHealthPolicy → Bytes
  | none => [0]
  | some passive =>
    [1, passive.httpFailures, passive.transportFailures, passive.timeouts] ++
      writeStatuses passive.unhealthyStatuses

structure HealthKey where
  endpointIdentity : Bytes
  fingerprint : Bytes
  deriving DecidableEq

def makeHealthKey (platform : Platform) (identity : Bytes) (policy : HealthPolicy)
    (transport : TransportKey) : HealthKey :=
  ⟨identity, platform.sha256 (writeString (ascii "gateway/health-key/v2") ++
    writeActive policy.active ++ writePassive policy.passive ++ writeTransportKey transport)⟩

structure BudgetKey where
  upstreamID : Bytes
  fingerprint : Bytes
  deriving DecidableEq

def makeBudgetKey (platform : Platform) (upstreamID : Bytes) (policy : RetryBudgetPolicy) :
    BudgetKey :=
  ⟨upstreamID, platform.sha256 (writeUint16 policy.ratioPer1000 ++ writeUint16 policy.burst ++
    writeUint16 policy.maxInflight)⟩

structure SelectionKey where
  upstreamID : Bytes
  algorithm : BalancerType
  deriving DecidableEq

end GGateway.Upstream
