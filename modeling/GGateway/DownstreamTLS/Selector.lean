import GGateway.DownstreamTLS.Verification

/-!
# The certificate selector

`internal/downstreamtls/selector.go`.  `compile` checks a policy against the
materials and builds its index of exact and wildcard names; `Selector.select` looks a
server name up in it.
-/

namespace GGateway.DownstreamTLS

open Text Model Library Library.Assoc Library.Checks

/-! ## Data -/

inductive Code where
  | downstreamTLSRequired
  | defaultCertificateNotFound
  | sniBindingInvalid
  | sniBindingConflict
  | certificateHostnameMismatch
  | certificateNotYetValid
  | certificateExpired
  | sniIndexLimitExceeded
  deriving DecidableEq, Repr

structure ConfigError where
  code : Code
  resourceID : Bytes
  field : Bytes
  cause : Option Bytes
  deriving DecidableEq, Repr

/-- `tls.Certificate`: the chain and the parsed leaf. -/
structure TLSCertificate where
  chain : List Bytes
  leaf : Option Leaf
  deriving DecidableEq, Repr

/-- `tlsmaterial.Certificate`. -/
structure Certificate where
  id : Bytes
  certificate : TLSCertificate
  deriving DecidableEq, Repr

inductive Selection where
  | exact
  | wildcard
  | default
  deriving DecidableEq, Repr

structure Stats where
  certificateCount : Nat
  exactCount : Nat
  wildcardCount : Nat
  earliestExpiry : Int
  deriving DecidableEq, Repr

/-- The two maps of a selector, and what `compile` has gathered so far. -/
structure Index where
  exact : List (Bytes × TLSCertificate)
  wildcard : List (Bytes × TLSCertificate)
  compiled : List (Bytes × TLSCertificate)
  stats : Stats
  deriving DecidableEq, Repr

structure Selector where
  defaultCertificate : Option TLSCertificate
  index : Index
  deriving DecidableEq, Repr

/-- A canonical name, and whether it is the suffix of a wildcard. -/
abbrev Key := Bytes × Bool

def Index.find (index : Index) (key : Key) : Option TLSCertificate :=
  if key.2 then index.wildcard.lookup key.1 else index.exact.lookup key.1

def Index.insert (index : Index) (key : Key) (certificate : TLSCertificate) : Index :=
  if key.2 then
    { index with
      wildcard := index.wildcard ++ [(key.1, certificate)]
      stats := { index.stats with wildcardCount := index.stats.wildcardCount + 1 } }
  else
    { index with
      exact := index.exact ++ [(key.1, certificate)]
      stats := { index.stats with exactCount := index.stats.exactCount + 1 } }

/-! ## Compile -/

def maxSNINames : Nat := 10000

/-- The loop that counts the hosts, with the count so far. -/
def exceedsIndex : Nat → List SNIBinding → Bool
  | _, [] => false
  | count, binding :: rest =>
    if maxSNINames < count + binding.hosts.length then true
    else exceedsIndex (count + binding.hosts.length) rest

def configError (code : Code) (resourceID field : Bytes) : ConfigError :=
  ⟨code, resourceID, field, none⟩

/-- The loop that fills `materialByID`. -/
def indexMaterials : List (Option Certificate) → List (Bytes × Certificate) →
    Except ConfigError (List (Bytes × Certificate))
  | [], seen => .ok seen
  | none :: _, _ =>
    .error (configError .sniBindingInvalid (ascii "certificate") (ascii "certificates"))
  | some material :: rest, seen =>
    if material.id = [] then
      .error (configError .sniBindingInvalid (ascii "certificate") (ascii "certificates"))
    else if (seen.lookup material.id).isSome then
      .error (configError .sniBindingInvalid material.id (ascii "certificates"))
    else indexMaterials rest (seen ++ [(material.id, material)])

/-- The checks that `compileCertificate` makes of a certificate it has not compiled. -/
def checkCertificate (now : Int) (material : Certificate) : Except ConfigError Leaf :=
  match material.certificate.leaf with
  | none => .error (configError .sniBindingInvalid material.id (ascii "certificate"))
  | some leaf =>
    if material.certificate.chain = [] then
      .error (configError .sniBindingInvalid material.id (ascii "certificate"))
    else if now < leaf.notBefore then
      .error (configError .certificateNotYetValid material.id (ascii "not_before"))
    else if leaf.notAfter < now then
      .error (configError .certificateExpired material.id (ascii "not_after"))
    else .ok leaf

def Stats.addCertificate (stats : Stats) (leaf : Leaf) : Stats :=
  { stats with
    certificateCount := stats.certificateCount + 1
    earliestExpiry :=
      if stats.earliestExpiry = 0 ∨ leaf.notAfter < stats.earliestExpiry then leaf.notAfter
      else stats.earliestExpiry }

def compileCertificate (now : Int) (material : Certificate) (index : Index) :
    Except ConfigError (TLSCertificate × Index) :=
  match index.compiled.lookup material.id with
  | some certificate => .ok (certificate, index)
  | none =>
    match checkCertificate now material with
    | .error cause => .error cause
    | .ok leaf =>
      .ok (material.certificate,
        { index with
          compiled := (material.id, material.certificate) :: index.compiled
          stats := index.stats.addCertificate leaf })

section Compile

variable (sameIP : Bytes → Bytes → Bool)

def wildcardSANVerifies (pattern suffix : Bytes) : Bool :=
  verifyHostname sameIP ⟨0, 0, [pattern], []⟩ (97 :: 46 :: suffix)

def certificateCoversHost (certificate : TLSCertificate) (canonical : Bytes) (wildcard : Bool) :
    Bool :=
  match certificate.leaf with
  | none => false
  | some leaf =>
    if !wildcard then verifyHostname sameIP leaf canonical
    else leaf.dnsNames.any fun dnsName =>
      match normalizeBindingHost dnsName with
      | some (suffix, true) => suffix == canonical && wildcardSANVerifies sameIP dnsName canonical
      | _ => false

def bindHost (certificateRef : Bytes) (certificate : TLSCertificate) (rawHost : Bytes)
    (index : Index) : Except ConfigError Index :=
  match normalizeBindingHost rawHost with
  | none =>
    .error ⟨.sniBindingInvalid, certificateRef, ascii "hosts", some (ascii "invalid server name")⟩
  | some key =>
    if (index.find key).isSome then
      .error (configError .sniBindingConflict certificateRef (ascii "hosts"))
    else if !certificateCoversHost sameIP certificate key.1 key.2 then
      .error (configError .certificateHostnameMismatch certificateRef (ascii "hosts"))
    else .ok (index.insert key certificate)

def bindHosts (certificateRef : Bytes) (certificate : TLSCertificate) :
    List Bytes → Index → Except ConfigError Index
  | [], index => .ok index
  | rawHost :: rest, index => do
      let next ← bindHost sameIP certificateRef certificate rawHost index
      bindHosts certificateRef certificate rest next

def bindOne (materialByID : List (Bytes × Certificate)) (now : Int) (binding : SNIBinding)
    (index : Index) : Except ConfigError Index := do
  require (binding.certificateRef ≠ [] ∧ binding.hosts ≠ [])
    (configError .sniBindingInvalid binding.certificateRef (ascii "sni_bindings"))
  let material ← demand (materialByID.lookup binding.certificateRef)
    (configError .sniBindingInvalid binding.certificateRef (ascii "certificate_ref"))
  let (certificate, next) ← compileCertificate now material index
  bindHosts sameIP binding.certificateRef certificate binding.hosts next

def bindAll (materialByID : List (Bytes × Certificate)) (now : Int) :
    List SNIBinding → Index → Except ConfigError Index
  | [], index => .ok index
  | binding :: rest, index => do
      let next ← bindOne sameIP materialByID now binding index
      bindAll materialByID now rest next

def compile (policy : Option DownstreamTLSPolicy) (materials : List (Option Certificate))
    (now : Int) : Except ConfigError Selector := do
  let policy ← demand policy
    (configError .downstreamTLSRequired (ascii "downstream_tls") (ascii "downstream_tls"))
  require (!exceedsIndex 0 policy.sniBindings)
    (configError .sniIndexLimitExceeded (ascii "downstream_tls") (ascii "sni_bindings"))
  let materialByID ← indexMaterials materials []
  let defaultMaterial ← demand
    (if policy.defaultCertificateRef = [] then none
      else materialByID.lookup policy.defaultCertificateRef)
    (configError .defaultCertificateNotFound policy.defaultCertificateRef
      (ascii "default_certificate_ref"))
  let (defaultCertificate, index) ← compileCertificate now defaultMaterial ⟨[], [], [], ⟨0, 0, 0, 0⟩⟩
  let index ← bindAll sameIP materialByID now policy.sniBindings index
  pure ⟨some defaultCertificate, index⟩

end Compile

/-! ## Select -/

/-- What follows the first dot, when it is neither at the start nor at the end. -/
def parentName (canonical : Bytes) : Option Bytes :=
  match indexByte canonical 46 with
  | none => none
  | some separator =>
    if 0 < separator ∧ separator + 1 < canonical.length then
      some (canonical.drop (separator + 1))
    else none

/-- `Select`; `none` is a nil `hello`. -/
def Selector.select (selector : Selector) (hello : Option Bytes) :
    Except Bytes (TLSCertificate × Selection) :=
  match selector.defaultCertificate with
  | none => .error (ascii "downstream certificate is unavailable")
  | some fallback =>
    match hello with
    | none => .ok (fallback, .default)
    | some serverName =>
      if serverName = [] then .ok (fallback, .default)
      else
        match canonicalizeServerName serverName with
        | none => .ok (fallback, .default)
        | some canonical =>
          match selector.index.exact.lookup canonical with
          | some certificate => .ok (certificate, .exact)
          | none =>
            match (parentName canonical).bind fun parent => selector.index.wildcard.lookup parent with
            | some certificate => .ok (certificate, .wildcard)
            | none => .ok (fallback, .default)

end GGateway.DownstreamTLS
