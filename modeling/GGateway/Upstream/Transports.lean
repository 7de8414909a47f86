import GGateway.TLSMaterial.Material
import GGateway.Upstream.Canonical

/-!
# Transports and their keys

What `newTransportRuntime` builds from a profile, and when two upstreams have the same
transport key.

* `TransportIdentity` is what an upstream says about its connections: the CA certificates
  as a set, the client certificate as its chain, no IDs
* the profile of an accepted upstream has TLS settings only for HTTPS
  (`normalizeUpstream_scheme`), so that the key leaves nothing of the identity out
  (`makeTransportKey_eq_iff`)
* a transport is built from the profile and not from its key; equal keys build equal
  transports all the same (`newTransportRuntime_eq`)
-/

namespace GGateway.Upstream

open Text Model Library Library.Checks TLSMaterial

/-! ## What is built -/

/-- `http.Protocols`. -/
structure Protocols where
  http1 : Bool
  http2 : Bool
  unencryptedHTTP2 : Bool
  deriving DecidableEq

/-- The fields of `tls.Config` that are set.  Without root CAs those of the system are
trusted. -/
structure TLSConfig where
  minVersion : UInt16
  sessionCacheCapacity : Nat
  serverName : Bytes
  nextProtos : List Bytes
  rootCAs : Option (List Document)
  certificates : List (List Document × Bytes)
  deriving DecidableEq

/-- What the function made by `newVerifiedTLSDialer` captures. -/
structure VerifiedTLSDialer where
  dialTimeout : Int
  baseTLS : TLSConfig
  mode : Bytes
  mtls : Bool
  serverName : Bytes
  protocol : TransportProtocol
  deriving DecidableEq

/-- `http.Transport`. -/
structure HTTPTransport where
  dialTimeout : Int
  keepAlive : Int
  forceAttemptHTTP2 : Bool
  protocols : Protocols
  disableCompression : Bool
  maxIdleConns : Int
  maxIdleConnsPerHost : Int
  idleConnTimeout : Int
  responseHeaderTimeout : Int
  tlsClientConfig : Option TLSConfig
  dialTLSContext : Option VerifiedTLSDialer
  deriving DecidableEq

def newVerifiedTLSDialer (dialTimeout : Int) (baseTLS : TLSConfig) (profile : TransportProfile) :
    VerifiedTLSDialer :=
  let mtls := profile.clientCertificate.isSome
  { dialTimeout := dialTimeout
    baseTLS := baseTLS
    mode := if mtls then ascii "mtls" else ascii "server_auth"
    mtls := mtls
    serverName := profile.serverName
    protocol := profile.protocol }

def protocolsFor (scheme : Bytes) (protocol : TransportProtocol) : Protocols :=
  if scheme = ascii "http" ∧ protocol = .http2 then ⟨false, false, true⟩
  else if scheme = ascii "http" then ⟨true, false, false⟩
  else
    match protocol with
    | .auto => ⟨true, true, false⟩
    | .http1 => ⟨true, false, false⟩
    | .http2 => ⟨false, true, false⟩
    | .other _ => ⟨false, false, false⟩

def nextProtosFor : TransportProtocol → List Bytes
  | .auto => [ascii "h2", ascii "http/1.1"]
  | .http1 => [ascii "http/1.1"]
  | .http2 => [ascii "h2"]
  | .other _ => []

def tlsConfigFor (profile : TransportProfile) : TLSConfig where
  minVersion := versionTLS12
  sessionCacheCapacity := 64
  serverName := profile.serverName
  nextProtos := nextProtosFor profile.protocol
  rootCAs := profile.trustBundle.map Material.documents
  certificates := profile.clientCertificate.toList.map fun certificate =>
    (certificate.documents, certificate.privateKey)

def newHTTPTransport (profile : TransportProfile) (key : TransportKey) : HTTPTransport :=
  let transport : HTTPTransport :=
    { dialTimeout := key.dialTimeout
      keepAlive := 30 * second
      forceAttemptHTTP2 := decide (profile.scheme = ascii "https" ∧ profile.protocol ≠ .http1)
      protocols := protocolsFor profile.scheme profile.protocol
      disableCompression := key.disableCompression
      maxIdleConns := key.maxIdleConnections
      maxIdleConnsPerHost := key.maxIdleConnectionsPerHost
      idleConnTimeout := key.idleConnectionTimeout
      responseHeaderTimeout := key.responseHeaderTimeout
      tlsClientConfig := none
      dialTLSContext := none }
  if profile.scheme ≠ ascii "https" then transport
  else
    { transport with
      tlsClientConfig := some (tlsConfigFor profile)
      dialTLSContext :=
        some (newVerifiedTLSDialer key.dialTimeout (tlsConfigFor profile) profile) }

/-- The transports of a `transportRuntime`. -/
structure TransportParts where
  key : TransportKey
  production : HTTPTransport
  probe : HTTPTransport
  upgrade : Option HTTPTransport
  mtls : Bool
  deriving DecidableEq

def newTransportRuntime (profile : TransportProfile) : TransportParts :=
  let key := makeTransportKey profile
  let production := newHTTPTransport profile key
  { key := key
    production := production
    probe := newHTTPTransport profile key
    upgrade :=
      match profile.protocol with
      | .auto =>
        some (newHTTPTransport
          { profile with
            protocol := .http1
            transport := { profile.transport with protocol := .http1 } } key)
      | .http1 => some production
      | _ => none
    mtls := profile.clientCertificate.isSome }

/-! ## What an upstream asks for -/

/-- What decides how an upstream is connected to. -/
structure TransportIdentity where
  scheme : Bytes
  protocol : TransportProtocol
  dialTimeout : Int
  responseHeaderTimeout : Int
  idleConnectionTimeout : Int
  maxIdleConnections : Int
  maxIdleConnectionsPerHost : Int
  serverName : Bytes
  /-- The CA certificates; `none` is the trust of the system. -/
  trusted : Option (Set Document)
  clientChain : Option (List Document)

/-- The material that a reference names; an empty reference names none. -/
def named (materials : List (Option Material)) (reference : Bytes) : Option Material :=
  if reference = [] then none
  else (materials.filterMap id).find? fun material => material.id == reference

def trustBundleOf (resources : ResourceSet) (resource : Upstream) : Option Material :=
  resource.transport.tls.bind fun policy => named resources.trustBundles policy.trustBundleRef

def clientCertificateOf (resources : ResourceSet) (resource : Upstream) : Option Material :=
  resource.transport.tls.bind fun policy => named resources.certificates policy.clientCertificateRef

/-- The scheme of the endpoints that take traffic. -/
def endpointScheme (platform : Platform) (endpoints : List Endpoint) : Bytes :=
  ((endpoints.find? fun endpoint => decide (endpoint.weight ≠ 0)).map fun endpoint =>
    schemeOf platform endpoint.url).getD []

def transportIdentity (platform : Platform) (resources : ResourceSet) (resource : Upstream) :
    TransportIdentity where
  scheme := endpointScheme platform resource.endpoints
  protocol := resource.transport.protocol
  dialTimeout := resource.transport.dialTimeout
  responseHeaderTimeout := resource.transport.responseHeaderTimeout
  idleConnectionTimeout := resource.transport.idleConnectionTimeout
  maxIdleConnections := resource.transport.maxIdleConnections
  maxIdleConnectionsPerHost := resource.transport.maxIdleConnectionsPerHost
  serverName := (resource.transport.tls.map UpstreamTLSPolicy.serverName).getD []
  trusted := (trustBundleOf resources resource).map fun bundle =>
    { document | document ∈ bundle.documents }
  clientChain := (clientCertificateOf resources resource).map Material.documents

/-- All material was made by `NewTrustBundle` and `NewCertificate`. -/
structure Genuine (platform : Platform) (codec : Codec) (resources : ResourceSet) : Prop where
  trustBundles : ∀ bundle, some bundle ∈ resources.trustBundles →
    ∃ id caPEM, newTrustBundle platform.sha256 codec id caPEM = .ok bundle
  certificates : ∀ certificate, some certificate ∈ resources.certificates →
    ∃ id certificatePEM privateKeyPEM,
      newCertificate platform.sha256 codec id certificatePEM privateKeyPEM = .ok certificate

/-- The profile of an upstream that is accepted with its material. -/
structure Compiled (platform : Platform) (codec : Codec) (resources : ResourceSet)
    (resource : Upstream) (profile : TransportProfile) : Prop where
  genuine : Genuine platform codec resources
  accepted : ∃ normalized, normalize platform resources.upstreams = .ok normalized ∧
    resource ∈ normalized
  resolved : ∃ materials, newMaterialIndex resources = .ok materials ∧
    compileTransportProfile platform resource materials = .ok profile

/-! ## Material -/

/-- The index finds the material that a reference names. -/
theorem lookup_indexMaterials {name what : Bytes} {position : Nat}
    {materials : List (Option Material)} {seen after : List (Bytes × Bytes)}
    {index : List (Bytes × Material)}
    (h : indexMaterials name what position materials seen = .ok (index, after))
    (reference : Bytes) :
    index.lookup reference =
      (materials.filterMap id).find? fun material => material.id == reference := by
  induction materials generalizing position seen index with
  | nil =>
    cases h
    rfl
  | cons material rest ih =>
    unfold indexMaterials at h
    cases material with
    | none => contradiction
    | some material =>
      simp only [bind_eq_ok, require_eq_ok] at h
      obtain ⟨_, _, h⟩ := h
      split at h
      · contradiction
      simp only [bind_eq_ok] at h
      obtain ⟨⟨others, final⟩, hothers, h⟩ := h
      cases h
      rw [List.filterMap_cons, id, List.lookup_cons, List.find?_cons, ih hothers,
        Bool.beq_comm]

variable {upstreamID : Bytes} {platform : Platform} {sha256 : Bytes → Bytes} {inputs : Set Bytes}

theorem resolveMaterial_eq_ok {field what name kind : Bytes} {position : Nat}
    {materials : List (Option Material)} {seen after : List (Bytes × Bytes)}
    {index : List (Bytes × Material)} {reference : Bytes} {found : Option Material}
    (hindex : indexMaterials name kind position materials seen = .ok (index, after))
    (h : resolveMaterial upstreamID field what index reference = .ok found) :
    found = named materials reference := by
  unfold resolveMaterial at h
  unfold named
  split_ifs at h ⊢ with hempty
  · exact (Except.ok.inj h).symm
  rw [lookup_indexMaterials hindex] at h
  split at h
  · rename_i material hmaterial
    rw [hmaterial]
    exact (Except.ok.inj h).symm
  · contradiction

theorem mem_of_named {materials : List (Option Material)} {reference : Bytes} {found : Material}
    (h : named materials reference = some found) : some found ∈ materials := by
  unfold named at h
  split_ifs at h
  have hmem := List.mem_of_find?_eq_some h
  simpa using hmem

/-! ## Profiles -/

theorem profileScheme_of_ne_nil {start scheme : Bytes} {endpoints : List Endpoint}
    (hstart : start ≠ []) (h : profileScheme platform upstreamID endpoints start = .ok scheme) :
    scheme = start := by
  induction endpoints with
  | nil => exact (Except.ok.inj h).symm
  | cons endpoint rest ih =>
    rw [profileScheme] at h
    by_cases hweight : endpoint.weight = 0
    · rw [if_pos hweight] at h
      exact ih h
    rw [if_neg hweight, bind_eq_ok] at h
    obtain ⟨parsed, _, h⟩ := h
    rw [if_neg hstart, bind_eq_ok] at h
    obtain ⟨_, _, h⟩ := h
    exact ih h

theorem profileScheme_eq {scheme : Bytes} {endpoints : List Endpoint}
    (hendpoints : ∀ endpoint ∈ endpoints, schemeOf platform endpoint.url ≠ [])
    (h : profileScheme platform upstreamID endpoints [] = .ok scheme) :
    scheme = endpointScheme platform endpoints := by
  induction endpoints with
  | nil => exact (Except.ok.inj h).symm
  | cons endpoint rest ih =>
    obtain ⟨hfirst, hrest⟩ := List.forall_mem_cons.mp hendpoints
    rw [profileScheme] at h
    unfold endpointScheme
    by_cases hweight : endpoint.weight = 0
    · rw [if_pos hweight] at h
      rw [List.find?_cons_of_neg (by simpa using hweight)]
      exact ih hrest h
    rw [if_neg hweight, bind_eq_ok] at h
    obtain ⟨url, hurl, h⟩ := h
    rw [if_pos rfl] at h
    have hscheme : schemeOf platform endpoint.url = url.scheme := by
      rw [schemeOf, mapError_eq_ok.mp hurl]
    rw [hscheme] at hfirst
    rw [List.find?_cons_of_pos (by simpa using hweight)]
    show scheme = schemeOf platform endpoint.url
    rw [hscheme]
    exact profileScheme_of_ne_nil hfirst h

/-- What a compiled profile takes from its upstream. -/
theorem compileTransportProfile_spec {resources : ResourceSet} {resource : Upstream}
    {materials : MaterialIndex} {profile : TransportProfile}
    (hmaterials : newMaterialIndex resources = .ok materials)
    (h : compileTransportProfile platform resource materials = .ok profile) :
    profileScheme platform resource.id resource.endpoints [] = .ok profile.scheme ∧
      profile.transport = resource.transport ∧
      profile.serverName = (resource.transport.tls.map UpstreamTLSPolicy.serverName).getD [] ∧
      profile.trustBundle = trustBundleOf resources resource ∧
      profile.clientCertificate = clientCertificateOf resources resource := by
  simp only [newMaterialIndex, bind_eq_ok] at hmaterials
  obtain ⟨⟨certificates, seen⟩, hcertificates, ⟨trustBundles, after⟩, htrustBundles, hindex⟩ :=
    hmaterials
  cases hindex
  simp only [compileTransportProfile, bind_eq_ok, require_eq_ok] at h
  obtain ⟨scheme, hscheme, _, _, h⟩ := h
  unfold trustBundleOf clientCertificateOf
  cases htls : resource.transport.tls with
  | none =>
    rw [htls] at h
    cases h
    exact ⟨hscheme, rfl, rfl, rfl, rfl⟩
  | some policy =>
    rw [htls] at h
    simp only [bind_eq_ok] at h
    obtain ⟨bundle, hbundle, certificate, hcertificate, h⟩ := h
    cases h
    exact ⟨hscheme, rfl, rfl, resolveMaterial_eq_ok htrustBundles hbundle,
      resolveMaterial_eq_ok hcertificates hcertificate⟩

section Accepted

variable {platform : Platform} {resource : Upstream}

theorem validateTransport_http {scheme field : Bytes} {transport result : TransportConfig}
    (hscheme : scheme = ascii "http")
    (h : validateTransport platform upstreamID scheme field transport = .ok result) :
    result.tls = none := by
  simp only [validateTransport, requirePositive, bind_eq_ok, require_eq_ok, decide_eq_true_eq] at h
  obtain ⟨_, _, _, _, _, _, _, _, _, _, _, _, _, htls, h⟩ := h
  have hnone : transport.tls = none := htls.resolve_left (not_not_intro hscheme)
  rw [hnone] at h
  rw [← Except.ok.inj h]

/-- The endpoints of an accepted upstream have one scheme, and only HTTPS endpoints have
a TLS policy. -/
theorem normalizeUpstream_scheme (hplatform : platform.Documented) {field : Bytes}
    {source : Upstream} (h : normalizeUpstream platform field source = .ok resource) :
    (∀ endpoint ∈ resource.endpoints, schemeOf platform endpoint.url ≠ []) ∧
    (endpointScheme platform resource.endpoints ≠ ascii "https" → resource.transport.tls = none) := by
  simp only [normalizeUpstream, bind_eq_ok, require_eq_ok, decide_eq_true_eq] at h
  obtain ⟨scan, hscan, _, hactive, _, _, transport, htransport, _, _, _, _, hresult⟩ := h
  obtain ⟨canonical, hforms, hscannable, rfl⟩ := (scanEndpoints_eq_ok hplatform).mp hscan
  cases hresult
  have hperm : canonical.Perm
      (canonical.foldl (EndpointScan.push platform source.id) .start).sorted :=
    perm_sorted canonical
  have hschemes : ∀ endpoint ∈ canonical, schemeOf platform endpoint.url = ascii "http" ∨
      schemeOf platform endpoint.url = ascii "https" := by
    intro endpoint hendpoint
    obtain ⟨_, url, hurl, hscheme⟩ := normalizeEndpoint_idem hplatform
      (canonical_self hplatform hforms endpoint hendpoint).url
    rwa [schemeOf, hurl]
  constructor
  · intro endpoint hendpoint
    rcases hschemes endpoint (hperm.mem_iff.mpr hendpoint) with hscheme | hscheme
    · rw [hscheme]
      decide
    · rw [hscheme]
      decide
  · intro hplain
    -- The endpoint that fixes the scheme of the profile fixes that of the scan as well.
    obtain ⟨found, hfound⟩ : ∃ found, (canonical.foldl (EndpointScan.push platform source.id)
        .start).sorted.find? (fun endpoint => decide (endpoint.weight ≠ 0)) = some found := by
      rw [(foldl_push canonical .start).2] at hactive
      have hcount : 0 < canonical.countP fun endpoint => decide (0 < endpoint.weight) := by
        change 0 + _ ≠ 0 at hactive
        omega
      obtain ⟨endpoint, hendpoint, hpositive⟩ := List.countP_pos_iff.mp hcount
      rw [decide_eq_true_eq] at hpositive
      apply Option.isSome_iff_exists.mp
      rw [List.find?_isSome]
      exact ⟨endpoint, hperm.mem_iff.mp hendpoint, by simpa using by omega⟩
    have hmem : found ∈ canonical := hperm.mem_iff.mpr (List.mem_of_find?_eq_some hfound)
    have hpositive : 0 < found.weight := by
      have hweight := List.find?_some hfound
      rw [decide_eq_true_eq] at hweight
      omega
    have hscheme : (canonical.foldl (EndpointScan.push platform source.id) .start).scheme =
        schemeOf platform found.url := by
      rw [scheme_foldl_push (hscannable.uniform found hmem hpositive)]
      exact if_pos ⟨found, hmem, hpositive⟩
    have hprofile : endpointScheme platform
        (canonical.foldl (EndpointScan.push platform source.id) .start).sorted =
          schemeOf platform found.url := by
      rw [endpointScheme, hfound]
      rfl
    rw [hprofile] at hplain
    exact validateTransport_http (hscheme.trans ((hschemes found hmem).resolve_right hplain))
      htransport

end Accepted

/-! ## Compiled upstreams -/

section Compiled

variable {platform : Platform} {codec : Codec} {resources : ResourceSet} {resource : Upstream}
  {profile : TransportProfile}

/-- The profile states the identity of its upstream, and TLS settings only for HTTPS. -/
structure TransportProfile.States (profile : TransportProfile) (platform : Platform)
    (resources : ResourceSet) (resource : Upstream) : Prop where
  scheme : profile.scheme = endpointScheme platform resource.endpoints
  transport : profile.transport = resource.transport
  protocol : profile.protocol = resource.transport.protocol
  serverName :
    profile.serverName = (resource.transport.tls.map UpstreamTLSPolicy.serverName).getD []
  trustBundle : profile.trustBundle = trustBundleOf resources resource
  clientCertificate : profile.clientCertificate = clientCertificateOf resources resource
  plain : profile.scheme ≠ ascii "https" →
    profile.trustBundle = none ∧ profile.clientCertificate = none

theorem Compiled.states (hplatform : platform.Documented)
    (h : Compiled platform codec resources resource profile) :
    profile.States platform resources resource := by
  obtain ⟨normalized, hnormalized, hresource⟩ := h.accepted
  obtain ⟨materials, hmaterials, hprofile⟩ := h.resolved
  simp only [normalize, bind_eq_ok] at hnormalized
  obtain ⟨_, _, hfrom⟩ := hnormalized
  obtain ⟨field, source, _, hsource⟩ := exists_normalizeUpstream hfrom resource hresource
  obtain ⟨hschemes, htls⟩ := normalizeUpstream_scheme hplatform hsource
  obtain ⟨hscheme, htransport, hserver, hbundle, hcertificate⟩ :=
    compileTransportProfile_spec hmaterials hprofile
  have hsame := profileScheme_eq hschemes hscheme
  constructor
  · exact hsame
  · exact htransport
  · exact compileTransportProfile_protocol hprofile
  · exact hserver
  · exact hbundle
  · exact hcertificate
  · intro hplain
    rw [hbundle, hcertificate, trustBundleOf, clientCertificateOf, htls (hsame ▸ hplain)]
    exact ⟨rfl, rfl⟩

theorem trustBundle_genuine (hgenuine : Genuine platform codec resources)
    (hstates : profile.States platform resources resource) {bundle : Material}
    (h : profile.trustBundle = some bundle) : some bundle ∈ resources.trustBundles ∧
      ∃ id caPEM, newTrustBundle platform.sha256 codec id caPEM = .ok bundle := by
  rw [hstates.trustBundle, trustBundleOf, Option.bind_eq_some_iff] at h
  obtain ⟨_, _, hnamed⟩ := h
  exact ⟨mem_of_named hnamed, hgenuine.trustBundles bundle (mem_of_named hnamed)⟩

theorem clientCertificate_genuine (hgenuine : Genuine platform codec resources)
    (hstates : profile.States platform resources resource) {certificate : Material}
    (h : profile.clientCertificate = some certificate) :
    some certificate ∈ resources.certificates ∧ ∃ id certificatePEM privateKeyPEM,
      newCertificate platform.sha256 codec id certificatePEM privateKeyPEM = .ok certificate := by
  rw [hstates.clientCertificate, clientCertificateOf, Option.bind_eq_some_iff] at h
  obtain ⟨_, _, hnamed⟩ := h
  exact ⟨mem_of_named hnamed, hgenuine.certificates certificate (mem_of_named hnamed)⟩

end Compiled

/-! ## Fingerprints of optional material -/

/-- What the digest is fed with for the material of a resource set. -/
def fingerprintInputs (resources : ResourceSet) : Set Bytes :=
  { input | (∃ bundle, some bundle ∈ resources.trustBundles ∧
      input = fingerprintInput trustBundleDomain bundle.documents) ∨
    ∃ certificate, some certificate ∈ resources.certificates ∧
      input = fingerprintInput certificateDomain certificate.documents }

/-- SHA-256 has no collision among the inputs and maps none of them to zero. -/
structure Collisionless (sha256 : Bytes → Bytes) (inputs : Set Bytes) : Prop where
  length : ∀ input ∈ inputs, (sha256 input).length = 32
  injective : ∀ left ∈ inputs, ∀ right ∈ inputs, sha256 left = sha256 right → left = right
  nonzero : ∀ input ∈ inputs, sha256 input ≠ zeroFingerprint

/-- The fingerprint that stands in a key; no material has the zero value. -/
def fingerprintOf (material : Option Material) : Bytes :=
  (material.map Material.fingerprint).getD zeroFingerprint

/-- The material has the fingerprint of its documents, and that was digested. -/
def Fingerprinted (sha256 : Bytes → Bytes) (domain : Bytes) (inputs : Set Bytes)
    (material : Option Material) : Prop :=
  ∀ found, material = some found →
    found.fingerprint = fingerprint sha256 domain found.documents ∧
      fingerprintInput domain found.documents ∈ inputs

theorem fingerprintOf_eq_iff {domain : Bytes} {left right : Option Material}
    (hdigest : Collisionless sha256 inputs) (hleft : Fingerprinted sha256 domain inputs left)
    (hright : Fingerprinted sha256 domain inputs right) :
    fingerprintOf left = fingerprintOf right ↔
      left.map Material.documents = right.map Material.documents := by
  cases left with
  | none =>
    cases right with
    | none => exact iff_of_true rfl rfl
    | some right =>
      obtain ⟨hfound, hinput⟩ := hright right rfl
      have hne : zeroFingerprint ≠ right.fingerprint := by
        rw [hfound]
        exact (hdigest.nonzero _ hinput).symm
      exact ⟨fun hsame => absurd hsame hne, fun hsame => by contradiction⟩
  | some left =>
    obtain ⟨hfound, hinput⟩ := hleft left rfl
    cases right with
    | none =>
      have hne : left.fingerprint ≠ zeroFingerprint := by
        rw [hfound]
        exact hdigest.nonzero _ hinput
      exact ⟨fun hsame => absurd hsame hne, fun hsame => by contradiction⟩
    | some right =>
      obtain ⟨hfound', hinput'⟩ := hright right rfl
      change left.fingerprint = right.fingerprint ↔ some left.documents = some right.documents
      rw [hfound, hfound', Option.some.injEq]
      constructor
      · intro hsame
        exact fingerprintInput_inj (hdigest.injective _ hinput _ hinput' hsame)
      · intro hsame
        rw [hsame]

theorem fingerprintOf_length {domain : Bytes} {material : Option Material}
    (hdigest : Collisionless sha256 inputs) (h : Fingerprinted sha256 domain inputs material) :
    (fingerprintOf material).length = 32 := by
  cases material with
  | none => exact List.length_replicate
  | some found =>
    obtain ⟨hfound, hinput⟩ := h found rfl
    change found.fingerprint.length = 32
    rw [hfound]
    exact hdigest.length _ hinput

/-- The documents of a trust bundle are determined by their set. -/
theorem documents_eq_iff {codec : Codec} {left right : Option Material}
    (hleft : ∀ bundle, left = some bundle →
      ∃ id caPEM, newTrustBundle sha256 codec id caPEM = .ok bundle)
    (hright : ∀ bundle, right = some bundle →
      ∃ id caPEM, newTrustBundle sha256 codec id caPEM = .ok bundle) :
    left.map Material.documents = right.map Material.documents ↔
      (left.map fun bundle => { document | document ∈ bundle.documents }) =
        right.map fun bundle => { document | document ∈ bundle.documents } := by
  cases left with
  | none => cases right <;> simp
  | some left =>
    cases right with
    | none => simp
    | some right =>
      obtain ⟨_, _, hbundle⟩ := hleft left rfl
      obtain ⟨_, _, hother⟩ := hright right rfl
      obtain ⟨_, _, hsorted, hnodup, _⟩ := newTrustBundle_spec hbundle
      obtain ⟨_, _, hsorted', hnodup', _⟩ := newTrustBundle_spec hother
      simp only [Option.map_some, Option.some.injEq, Set.ext_iff, Set.mem_ofPred_eq]
      constructor
      · intro hsame document
        rw [hsame]
      · exact SortedSet.eq_of_sorted_nodup hsorted hsorted' hnodup hnodup'

/-! ## Keys -/

/-- The key of a profile that has TLS settings only for HTTPS. -/
theorem makeTransportKey_eq {profile : TransportProfile}
    (h : profile.scheme ≠ ascii "https" →
      profile.trustBundle = none ∧ profile.clientCertificate = none) :
    makeTransportKey profile =
      { scheme := profile.scheme
        serverName := profile.serverName
        protocol := profile.protocol
        dialTimeout := profile.transport.dialTimeout
        responseHeaderTimeout := profile.transport.responseHeaderTimeout
        idleConnectionTimeout := profile.transport.idleConnectionTimeout
        maxIdleConnections := profile.transport.maxIdleConnections
        maxIdleConnectionsPerHost := profile.transport.maxIdleConnectionsPerHost
        tlsEnabled := decide (profile.scheme = ascii "https")
        tlsPolicyVersion := if profile.scheme = ascii "https" then tlsTransportPolicyVersion else 0
        trustSystem := decide (profile.scheme = ascii "https") && profile.trustBundle.isNone
        trustFingerprint := fingerprintOf profile.trustBundle
        clientFingerprint := fingerprintOf profile.clientCertificate
        minTLSVersion := if profile.scheme = ascii "https" then versionTLS12 else 0
        disableCompression := true } := by
  unfold makeTransportKey
  by_cases hscheme : profile.scheme = ascii "https"
  · simp only [hscheme, if_true, decide_true, Bool.true_and]
    rfl
  · obtain ⟨hbundle, hcertificate⟩ := h hscheme
    simp only [hscheme, if_false, decide_false, Bool.false_and, hbundle, hcertificate]
    rfl

section Pairs

variable {platform : Platform} {codec : Codec} {resources others : ResourceSet}
  {resource other : Upstream} {profile otherProfile : TransportProfile}

theorem trustBundle_fingerprinted (h : Compiled platform codec resources resource profile)
    (hstates : profile.States platform resources resource)
    (hinputs : fingerprintInputs resources ⊆ inputs) :
    Fingerprinted platform.sha256 trustBundleDomain inputs profile.trustBundle := by
  intro bundle hbundle
  obtain ⟨hmem, _, _, hmade⟩ := trustBundle_genuine h.genuine hstates hbundle
  exact ⟨(newTrustBundle_spec hmade).2.1, hinputs (Or.inl ⟨bundle, hmem, rfl⟩)⟩

theorem clientCertificate_fingerprinted (h : Compiled platform codec resources resource profile)
    (hstates : profile.States platform resources resource)
    (hinputs : fingerprintInputs resources ⊆ inputs) :
    Fingerprinted platform.sha256 certificateDomain inputs profile.clientCertificate := by
  intro certificate hcertificate
  obtain ⟨hmem, _, _, _, hmade⟩ := clientCertificate_genuine h.genuine hstates hcertificate
  exact ⟨(newCertificate_spec hmade).2.1, hinputs (Or.inr ⟨certificate, hmem, rfl⟩)⟩

variable (hplatform : platform.Documented) {inputs : Set Bytes}
  (hdigest : Collisionless platform.sha256 inputs)
  (h : Compiled platform codec resources resource profile)
  (h' : Compiled platform codec others other otherProfile)
  (hinputs : fingerprintInputs resources ⊆ inputs) (hinputs' : fingerprintInputs others ⊆ inputs)

include hplatform hdigest h h' hinputs hinputs'

/-- The fingerprints in two keys agree exactly if the material does. -/
theorem fingerprints_eq_iff :
    (fingerprintOf profile.trustBundle = fingerprintOf otherProfile.trustBundle ↔
      (transportIdentity platform resources resource).trusted =
        (transportIdentity platform others other).trusted) ∧
    (fingerprintOf profile.clientCertificate = fingerprintOf otherProfile.clientCertificate ↔
      (transportIdentity platform resources resource).clientChain =
        (transportIdentity platform others other).clientChain) := by
  have hstates := h.states hplatform
  have hstates' := h'.states hplatform
  constructor
  · rw [fingerprintOf_eq_iff hdigest (trustBundle_fingerprinted h hstates hinputs)
        (trustBundle_fingerprinted h' hstates' hinputs'),
      documents_eq_iff (fun _ hbundle => (trustBundle_genuine h.genuine hstates hbundle).2)
        (fun _ hbundle => (trustBundle_genuine h'.genuine hstates' hbundle).2),
      hstates.trustBundle, hstates'.trustBundle]
    rfl
  · rw [fingerprintOf_eq_iff hdigest (clientCertificate_fingerprinted h hstates hinputs)
        (clientCertificate_fingerprinted h' hstates' hinputs'),
      hstates.clientCertificate, hstates'.clientCertificate]
    rfl

/-- Two accepted upstreams have the same key exactly if they have the same identity. -/
theorem makeTransportKey_eq_iff :
    makeTransportKey profile = makeTransportKey otherProfile ↔
      transportIdentity platform resources resource = transportIdentity platform others other := by
  have hstates := h.states hplatform
  have hstates' := h'.states hplatform
  obtain ⟨htrust, hclient⟩ := fingerprints_eq_iff hplatform hdigest h h' hinputs hinputs'
  rw [makeTransportKey_eq hstates.plain, makeTransportKey_eq hstates'.plain]
  constructor
  · intro hkeys
    obtain ⟨hscheme, hserver, hprotocol, hdial, hheader, hidle, hmax, hhost, _, _, _, hbundle,
      hcertificate, _, _⟩ := (TransportKey.mk.injEq ..).mp hkeys
    rw [hstates.scheme, hstates'.scheme] at hscheme
    rw [hstates.serverName, hstates'.serverName] at hserver
    rw [hstates.protocol, hstates'.protocol] at hprotocol
    rw [hstates.transport, hstates'.transport] at hdial hheader hidle hmax hhost
    exact (TransportIdentity.mk.injEq ..).mpr ⟨hscheme, hprotocol, hdial, hheader, hidle, hmax,
      hhost, hserver, htrust.mp hbundle, hclient.mp hcertificate⟩
  · intro hsame
    have hbundle := htrust.mpr (congrArg TransportIdentity.trusted hsame)
    have hcertificate := hclient.mpr (congrArg TransportIdentity.clientChain hsame)
    obtain ⟨hscheme, hprotocol, hdial, hheader, hidle, hmax, hhost, hserver, htrusted, _⟩ :=
      (TransportIdentity.mk.injEq ..).mp hsame
    have hsystem : profile.trustBundle.isNone = otherProfile.trustBundle.isNone := by
      have hnone := congrArg Option.isNone htrusted
      rw [Option.isNone_map, Option.isNone_map] at hnone
      rwa [hstates.trustBundle, hstates'.trustBundle]
    rw [← hstates.scheme, ← hstates'.scheme] at hscheme
    rw [← hstates.serverName, ← hstates'.serverName] at hserver
    rw [← hstates.protocol, ← hstates'.protocol] at hprotocol
    rw [← hstates.transport, ← hstates'.transport] at hdial hheader hidle hmax hhost
    rw [hscheme, hserver, hprotocol, hdial, hheader, hidle, hmax, hhost, hsystem, hbundle,
      hcertificate]

end Pairs

/-! ## Equal keys, equal transports -/

/-- A transport is built from these parts of its profile. -/
theorem newTransportRuntime_congr {left right : TransportProfile}
    (hkey : makeTransportKey left = makeTransportKey right) (hscheme : left.scheme = right.scheme)
    (hserver : left.serverName = right.serverName) (hprotocol : left.protocol = right.protocol)
    (hbundle : left.trustBundle.map Material.documents = right.trustBundle.map Material.documents)
    (hcertificate : (left.clientCertificate.map fun certificate =>
        (certificate.documents, certificate.privateKey)) =
      right.clientCertificate.map fun certificate =>
        (certificate.documents, certificate.privateKey)) :
    newTransportRuntime left = newTransportRuntime right := by
  have hmtls : left.clientCertificate.isSome = right.clientCertificate.isSome := by
    have hsome := congrArg Option.isSome hcertificate
    rwa [Option.isSome_map, Option.isSome_map] at hsome
  have hchains : (left.clientCertificate.toList.map fun certificate =>
      (certificate.documents, certificate.privateKey)) =
      right.clientCertificate.toList.map fun certificate =>
        (certificate.documents, certificate.privateKey) := by
    rw [← Option.toList_map, ← Option.toList_map, hcertificate]
  unfold newTransportRuntime newHTTPTransport newVerifiedTLSDialer tlsConfigFor
  simp only [hkey, hscheme, hserver, hprotocol, hbundle, hmtls, hchains]

/-- A chain determines its private key. -/
def Paired (codec : Codec) : Prop :=
  ∀ certificatePEM privateKeyPEM otherPEM otherKeyPEM documents privateKey otherKey,
    codec.keyPair certificatePEM privateKeyPEM = .ok (documents, privateKey) →
    codec.keyPair otherPEM otherKeyPEM = .ok (documents, otherKey) → privateKey = otherKey

theorem chains_eq {codec : Codec} (hpaired : Paired codec) {left right : Option Material}
    (hleft : ∀ certificate, left = some certificate → ∃ id certificatePEM privateKeyPEM,
      newCertificate sha256 codec id certificatePEM privateKeyPEM = .ok certificate)
    (hright : ∀ certificate, right = some certificate → ∃ id certificatePEM privateKeyPEM,
      newCertificate sha256 codec id certificatePEM privateKeyPEM = .ok certificate)
    (h : left.map Material.documents = right.map Material.documents) :
    (left.map fun certificate => (certificate.documents, certificate.privateKey)) =
      right.map fun certificate => (certificate.documents, certificate.privateKey) := by
  cases left with
  | none =>
    cases right with
    | none => rfl
    | some right => contradiction
  | some left =>
    cases right with
    | none => contradiction
    | some right =>
      have hdocuments : left.documents = right.documents := Option.some.inj h
      obtain ⟨_, _, _, hmade⟩ := hleft left rfl
      obtain ⟨_, _, _, hmade'⟩ := hright right rfl
      obtain ⟨_, _, hpair⟩ := newCertificate_spec hmade
      obtain ⟨_, _, hpair'⟩ := newCertificate_spec hmade'
      rw [← hdocuments] at hpair'
      have hkey := hpaired _ _ _ _ _ _ _ hpair hpair'
      rw [Option.map_some, Option.map_some, hdocuments, hkey]

/-- Equal keys build equal transports. -/
theorem newTransportRuntime_eq {codec : Codec} {resources others : ResourceSet}
    {resource other : Upstream} {profile otherProfile : TransportProfile}
    (hplatform : platform.Documented) (hdigest : Collisionless platform.sha256 inputs)
    (hpaired : Paired codec) (h : Compiled platform codec resources resource profile)
    (h' : Compiled platform codec others other otherProfile)
    (hinputs : fingerprintInputs resources ⊆ inputs)
    (hinputs' : fingerprintInputs others ⊆ inputs)
    (hkeys : makeTransportKey profile = makeTransportKey otherProfile) :
    newTransportRuntime profile = newTransportRuntime otherProfile := by
  have hstates := h.states hplatform
  have hstates' := h'.states hplatform
  have hparts := hkeys
  rw [makeTransportKey_eq hstates.plain, makeTransportKey_eq hstates'.plain] at hparts
  obtain ⟨hscheme, hserver, hprotocol, _, _, _, _, _, _, _, _, hbundle, hcertificate, _, _⟩ :=
    (TransportKey.mk.injEq ..).mp hparts
  apply newTransportRuntime_congr hkeys hscheme hserver hprotocol
  · exact (fingerprintOf_eq_iff hdigest (trustBundle_fingerprinted h hstates hinputs)
      (trustBundle_fingerprinted h' hstates' hinputs')).mp hbundle
  · apply chains_eq hpaired
      (fun _ hfound => (clientCertificate_genuine h.genuine hstates hfound).2)
      (fun _ hfound => (clientCertificate_genuine h'.genuine hstates' hfound).2)
    exact (fingerprintOf_eq_iff hdigest (clientCertificate_fingerprinted h hstates hinputs)
      (clientCertificate_fingerprinted h' hstates' hinputs')).mp hcertificate

end GGateway.Upstream
