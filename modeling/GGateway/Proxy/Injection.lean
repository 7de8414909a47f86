import GGateway.Plugin.RequestID
import GGateway.Proxy.Headers

/-!
# Headers that plugins inject

The request hooks run before the hop-by-hop fields are removed, on both paths.  What becomes of
a header that a hook has written:

* on the ordinary path, `httputil.ReverseProxy` clones the headers and removes what `Connection`
  names before it calls `Rewrite`;
* on the upgrade path, the handshake removes what `Connection` names at its end;
* both paths write the forwarding fields themselves, and the upgrade path its handshake.
-/

namespace GGateway.Proxy

open Text WebSocket Plugin Library.Checks

/-! ## The ordinary path -/

def isASCIISpace (byte : UInt8) : Bool :=
  byte == 32 || byte == 9 || byte == 10 || byte == 13

/-- `textproto.TrimString`. -/
def trimString (s : Bytes) : Bytes :=
  ((s.dropWhile isASCIISpace).reverse.dropWhile isASCIISpace).reverse

/-- The names that `Connection` nominates, as `httputil.ReverseProxy` reads them. -/
def nominated (header : Header) : List Bytes :=
  ((header.values (ascii "Connection")).flatMap fun value =>
    (split value 44).map trimString).filter (· ≠ [])

/-- The forwarding fields that `httputil.ReverseProxy` removes before it calls `Rewrite`. -/
def proxyForwardingHeaders : List Bytes :=
  [ascii "Forwarded", ascii "X-Forwarded-For", ascii "X-Forwarded-Host", ascii "X-Forwarded-Proto"]

/-- `removeHopByHopHeaders` of `httputil`, which has the same fixed names as the gateway. -/
def stripHopByHop (header : Header) : Header :=
  hopByHopHeaders.foldl Header.del ((nominated header).foldl Header.del header)

/-- What `httputil.ReverseProxy` hands to `Rewrite`: a clone without the hop-by-hop fields and
without the forwarding fields that it knows.  The `Te` and `Upgrade` that it puts back are
removed again by `Rewrite`. -/
def reverseProxyHeader (header : Header) : Header :=
  proxyForwardingHeaders.foldl Header.del (stripHopByHop header)

/-- The headers that the ordinary path sends, from the request after its hooks. -/
def proxiedHeader (request : ServerRequest) : Header :=
  rewriteHeader (reverseProxyHeader request.header) request

/-- The gateway writes a field itself, and writes these values. -/
def Writes (fields : List (Bytes × Option Bytes)) (name : Bytes) (values : List Bytes) : Prop :=
  ∃ field ∈ fields, canonicalMIMEHeaderKey field.1 = name ∧
    (field.2.map fun value => [value]) = some values

theorem forwardingHeaders_canonical :
    forwardingHeaders.map canonicalMIMEHeaderKey = forwardingHeaders := by
  decide

variable {name raw : Bytes} {tables : UnicodeTables} {values : List Bytes}
  {request : ServerRequest}

theorem mem_forwardingHeaders (inbound : ServerRequest) :
    name ∈ forwardingHeaders ↔ ∃ field ∈ forwardingFields inbound, field.1 = name := by
  have hnames : (forwardingFields inbound).map Prod.fst = forwardingHeaders := rfl
  rw [← hnames, List.mem_map]

theorem lookup_stripHopByHop (header : Header) (key : Bytes) :
    (stripHopByHop header).lookup key =
      if key ∈ hopByHopHeaders.map canonicalMIMEHeaderKey ∨
          key ∈ (nominated header).map canonicalMIMEHeaderKey then none
      else header.lookup key := by
  rw [stripHopByHop, Header.lookup_foldl_del, Header.lookup_foldl_del, ← ite_or]

/-- Neither `Rewrite` nor `ModifyResponse` finds a `Connection` any more. -/
theorem listed_stripHopByHop (names : List Bytes) (header : Header) :
    listed ((names.foldl Header.del (stripHopByHop header)).values (ascii "Connection")) = [] := by
  have hhop : canonicalMIMEHeaderKey (ascii "Connection") ∈
      hopByHopHeaders.map canonicalMIMEHeaderKey := by decide
  simp only [Header.values, Header.lookup_foldl_del, lookup_stripHopByHop, hhop, true_or, if_true,
    ite_self]
  rfl

/-- A field that is neither hop-by-hop nor a forwarding field reaches the upstream unless
`Connection` names it. -/
theorem lookup_proxiedHeader (request : ServerRequest) {key : Bytes}
    (hhop : key ∉ hopByHopHeaders.map canonicalMIMEHeaderKey) (hother : key ∉ forwardingHeaders) :
    (proxiedHeader request).lookup key =
      if key ∈ (nominated request.header).map canonicalMIMEHeaderKey then none
      else request.header.lookup key := by
  have hknown : key ∉ proxyForwardingHeaders.map canonicalMIMEHeaderKey := by
    have hsub : proxyForwardingHeaders.map canonicalMIMEHeaderKey ⊆ forwardingHeaders := by
      decide
    exact fun hmem => hother (hsub hmem)
  have hclone : (reverseProxyHeader request.header).lookup key =
      if key ∈ (nominated request.header).map canonicalMIMEHeaderKey then none
      else request.header.lookup key := by
    simp only [reverseProxyHeader, Header.lookup_foldl_del, if_neg hknown, lookup_stripHopByHop,
      hhop, false_or]
  rw [proxiedHeader, rewriteHeader, lookup_rebuildForwardingHeaders_of_not_mem _ _
    (forwardingHeaders_canonical ▸ hother), removeHopByHopHeaders, Header.lookup_foldl_del,
    if_neg hhop, reverseProxyHeader, listed_stripHopByHop, List.foldl_nil, ← reverseProxyHeader,
    hclone]

/-! ## What reaches the upstream -/

theorem hopByHop_of_mutable (h : validateMutableHeaderName tables raw = .ok name) :
    name ∉ hopByHopHeaders.map canonicalMIMEHeaderKey := by
  have hreserved : ∀ key ∈ hopByHopHeaders.map canonicalMIMEHeaderKey,
      key.map lowerByte ∈ reservedMutableHeaders := by decide
  exact fun hmem => (mutable_of_validate h).2.2 (hreserved name hmem)

/-- The handshake names that a plugin may write are those of `Sec-WebSocket`, and the gateway
writes each of them itself. -/
theorem exists_field_of_mutable (h : validateMutableHeaderName tables raw = .ok name)
    (hmem : name ∈ handshakeHeaders.map canonicalMIMEHeaderKey) (captured : RequestHandshake) :
    ∃ field ∈ captured.fields, canonicalMIMEHeaderKey field.1 = name := by
  have hcases : ∀ key ∈ handshakeHeaders.map canonicalMIMEHeaderKey,
      key.map lowerByte ∈ reservedMutableHeaders ∨
        key ∈ controls.map canonicalMIMEHeaderKey := by decide
  have hwritten : name ∈ captured.fields.map fun field => canonicalMIMEHeaderKey field.1 :=
    (hcases name hmem).resolve_left (mutable_of_validate h).2.2
  exact List.mem_map.mp hwritten

/-- What the gateway writes itself is all that is left of what a plugin wrote there. -/
theorem writes_iff {fields : List (Bytes × Option Bytes)} {header : Header}
    {field : Bytes × Option Bytes} (hfield : field ∈ fields)
    (hname : canonicalMIMEHeaderKey field.1 = name)
    (hall : ∀ other ∈ fields, canonicalMIMEHeaderKey other.1 = name →
      header.lookup name = other.2.map fun value => [value]) :
    header.lookup name = some values ↔ Writes fields name values := by
  constructor
  · intro hlookup
    exact ⟨field, hfield, hname, (hall field hfield hname).symm.trans hlookup⟩
  · rintro ⟨other, hother, hsame, hvalues⟩
    exact (hall other hother hsame).trans hvalues

theorem writes_forwarding_iff {header : Header} (hname : name ∈ forwardingHeaders)
    (hall : ∀ field ∈ forwardingFields request,
      header.lookup field.1 = field.2.map fun value => [value]) :
    header.lookup name = some values ↔ Writes (forwardingFields request) name values := by
  obtain ⟨field, hfield, hsame⟩ := (mem_forwardingHeaders request).mp hname
  have hkey : ∀ {other}, other ∈ forwardingFields request →
      canonicalMIMEHeaderKey other.1 = other.1 := fun h => (name_of_mem_forwardingFields h).2.1
  refine writes_iff hfield ((hkey hfield).trans hsame) fun other hother hsame => ?_
  rw [← hsame, hkey hother]
  exact hall other hother

/-- What the ordinary path sends under a name that a plugin may write. -/
theorem proxied_intact_iff (hname : validateMutableHeaderName tables raw = .ok name)
    (hvalues : request.header.lookup name = some values) :
    (proxiedHeader request).lookup name = some values ↔
      Writes (forwardingFields request) name values ∨
        name ∉ forwardingHeaders ∧ name ∉ (nominated request.header).map canonicalMIMEHeaderKey := by
  by_cases hown : name ∈ forwardingHeaders
  · have hwrites : (proxiedHeader request).lookup name = some values ↔
        Writes (forwardingFields request) name values :=
      writes_forwarding_iff hown fun field hfield => lookup_rebuildForwardingHeaders _ hfield
    rw [hwrites]
    simp only [hown, not_true_eq_false, false_and, or_false]
  · have hnone : ¬ Writes (forwardingFields request) name values := by
      rintro ⟨field, hfield, hsame, _⟩
      rw [(name_of_mem_forwardingFields hfield).2.1] at hsame
      exact hown ((mem_forwardingHeaders request).mpr ⟨field, hfield, hsame⟩)
    rw [lookup_proxiedHeader request (hopByHop_of_mutable hname) hown]
    by_cases hnamed : name ∈ (nominated request.header).map canonicalMIMEHeaderKey
    · rw [if_pos hnamed]
      simp only [hnone, hnamed, not_true_eq_false, and_false, or_false]
      exact iff_of_false (Option.some_ne_none values).symm not_false
    · rw [if_neg hnamed]
      exact iff_of_true hvalues (Or.inr ⟨hown, hnamed⟩)

/-- What rebuilding leaves under a name. -/
theorem rebuilt_intact_iff (hvalues : request.header.lookup name = some values) :
    (rebuildForwardingHeaders request.header request).lookup name = some values ↔
      Writes (forwardingFields request) name values ∨ name ∉ forwardingHeaders := by
  by_cases hown : name ∈ forwardingHeaders
  · rw [writes_forwarding_iff hown fun field hfield =>
      lookup_rebuildForwardingHeaders request.header hfield]
    simp only [hown, not_true_eq_false, or_false]
  · rw [lookup_rebuildForwardingHeaders_of_not_mem _ _ (forwardingHeaders_canonical ▸ hown)]
    exact iff_of_true hvalues (Or.inr hown)

/-- What the upgrade path sends under a name that a plugin may write. -/
theorem upgraded_intact_iff (hname : validateMutableHeaderName tables raw = .ok name)
    {captured : RequestHandshake} (hcaptured : validateRequest tables request = .ok captured)
    (hvalues : request.header.lookup name = some values) :
    (upgradeHeader request captured).lookup name = some values ↔
      Writes captured.fields name values ∨
        name ∉ handshakeHeaders.map canonicalMIMEHeaderKey ∧
          toLower tables name ∉ captured.connectionTokens ∧
          (Writes (forwardingFields request) name values ∨ name ∉ forwardingHeaders) := by
  by_cases hown : name ∈ handshakeHeaders.map canonicalMIMEHeaderKey
  · obtain ⟨field, hfield, hkey⟩ := exists_field_of_mutable hname hown captured
    rw [writes_iff hfield hkey fun other hother hsame => ?_]
    · simp [hown]
    · rw [← hsame]
      exact lookup_canonicalizeRequestHeaders_field _ hother
  · have hnone : ¬ Writes captured.fields name values := by
      rintro ⟨field, hfield, hsame, _⟩
      exact hown (hsame ▸ key_mem_handshakeHeaders hfield)
    obtain ⟨hcanonical, htoken, _⟩ := mutable_of_validate hname
    have hne : name ≠ [] := by
      rintro rfl
      exact Bool.false_ne_true htoken
    have hnamed := mem_connectionTokens hcaptured htoken
    rw [hcanonical, ← values_rebuildForwardingHeaders request.header request] at hnamed
    rw [upgradeHeader, lookup_canonicalizeRequestHeaders hown hne, ← rebuilt_intact_iff hvalues]
    by_cases hlost : toLower tables name ∈ captured.connectionTokens
    · rw [if_pos (hnamed.mp hlost)]
      simp only [hnone, hlost, not_true_eq_false, false_and, and_false, or_false, reduceCtorEq]
    · rw [if_neg fun h => hlost (hnamed.mpr h)]
      simp only [hnone, hlost, hown, not_false_eq_true, true_and, false_or]

/-- A header that the request hooks have written reaches the upstream with their values exactly
when `Connection` does not name it and the gateway does not write the field itself, or writes
the same values. -/
theorem injected_intact_iff (tables : UnicodeTables) (chain : Chain) (context : Context)
    (inbound : ServerRequest) {raw name : Bytes}
    (hname : validateMutableHeaderName tables raw = .ok name) :
    let request := (chain.runRequest context inbound).2.2
    ∀ values, request.header.lookup name = some values →
      ((proxiedHeader request).lookup name = some values ↔
        Writes (forwardingFields request) name values ∨
          name ∉ forwardingHeaders ∧
            name ∉ (nominated request.header).map canonicalMIMEHeaderKey) ∧
      ∀ captured, validateRequest tables inbound = .ok captured →
        validateRequest tables request = .ok captured →
          ((upgradeHeader request captured).lookup name = some values ↔
            Writes captured.fields name values ∨
              name ∉ handshakeHeaders.map canonicalMIMEHeaderKey ∧
                toLower tables name ∉ captured.connectionTokens ∧
                (Writes (forwardingFields request) name values ∨ name ∉ forwardingHeaders)) := by
  intro request values hvalues
  constructor
  · exact proxied_intact_iff hname hvalues
  · intro captured _ hcaptured
    exact upgraded_intact_iff hname hcaptured hvalues

/-- The registry of the gateway with a rewrite that sets one header on requests. -/
def sampleBuiltins : Builtins where
  tables := .asciiOnly
  random := fun _ => none
  decodeRequestID := fun config _ => .ok config
  decodeRewrite := fun _ => .ok
    ⟨⟨[], Header.empty.assign (ascii "x-tenant") [ascii "acme"], .empty⟩, ⟨[], .empty, .empty⟩⟩

/-- The chain of a route that attaches the header-rewrite plugin. -/
def rewriteChain (builtins : Builtins) : Except Message Chain := do
  let registry ← newBuiltinRegistry builtins
  registry.compileChain [] [⟨ascii "header-rewrite", true, []⟩]

theorem injected_intact_iff_unnamed :
    ∃ chain, rewriteChain sampleBuiltins = .ok chain ∧
      (proxiedHeader (chain.runRequest .attached (sampleUpgrade (ascii "Upgrade"))).2.2).lookup
        (ascii "X-Tenant") = some [ascii "acme"] := by
  have hruns : yields (rewriteChain sampleBuiltins) (fun chain =>
      let request := (chain.runRequest .attached (sampleUpgrade (ascii "Upgrade"))).2.2
      decide (request.header.lookup (ascii "X-Tenant") = some [ascii "acme"] ∧
        ascii "X-Tenant" ∉ (nominated request.header).map canonicalMIMEHeaderKey)) = true := by
    decide +kernel
  obtain ⟨chain, hchain, htest⟩ := exists_of_yields hruns
  have htest := of_decide_eq_true htest
  have hname : validateMutableHeaderName .asciiOnly (ascii "x-tenant") = .ok (ascii "X-Tenant") := by
    decide +kernel
  have hintact := (injected_intact_iff .asciiOnly chain .attached (sampleUpgrade (ascii "Upgrade"))
    hname _ htest.1).1
  exact ⟨chain, hchain, hintact.mpr (Or.inr ⟨by decide +kernel, htest.2⟩)⟩

/-- A client that names the injected header in `Connection` suppresses it on both paths. -/
theorem injected_intact_fails :
    ∃ chain inbound, rewriteChain sampleBuiltins = .ok chain ∧
      let request := (chain.runRequest .attached inbound).2.2
      request.header.lookup (ascii "X-Tenant") = some [ascii "acme"] ∧
      (proxiedHeader request).lookup (ascii "X-Tenant") = none ∧
      ∃ captured, validateRequest .asciiOnly inbound = .ok captured ∧
        validateRequest .asciiOnly request = .ok captured ∧
        (upgradeHeader request captured).lookup (ascii "X-Tenant") = none := by
  let inbound := sampleUpgrade (ascii "Upgrade, x-tenant")
  have hruns : yields (rewriteChain sampleBuiltins) (fun chain =>
      let request := (chain.runRequest .attached inbound).2.2
      decide (request.header.lookup (ascii "X-Tenant") = some [ascii "acme"] ∧
        (proxiedHeader request).lookup (ascii "X-Tenant") = none ∧
        ascii "X-Tenant" ∈ (listed ((rebuildForwardingHeaders request.header request).values
          (ascii "Connection"))).map canonicalMIMEHeaderKey ∧
        request.protoMajor = inbound.protoMajor ∧ request.protoMinor = inbound.protoMinor ∧
        request.method = inbound.method ∧ request.contentLength = inbound.contentLength ∧
        request.hasBody = inbound.hasBody ∧
        ∀ name ∈ controls, request.header.values name = inbound.header.values name)) = true := by
    decide +kernel
  obtain ⟨chain, hchain, htest⟩ := exists_of_yields hruns
  obtain ⟨hinjected, hproxied, hnamed, hmajor, hminor, hmethod, hlength, hbody, hvalues⟩ :=
    of_decide_eq_true htest
  -- The tokens of `Connection` are sorted when they are captured, so the captured handshake
  -- is not evaluated: the hooks have left what is read of the request.
  have hsame := validateRequest_congr .asciiOnly hmajor hminor hmethod hlength hbody hvalues
  have hok : (validateRequest .asciiOnly inbound).isOk = true := by decide +kernel
  obtain ⟨captured, hcaptured⟩ := exists_of_isOk hok
  refine ⟨chain, inbound, hchain, hinjected, hproxied, captured, hcaptured,
    hsame.trans hcaptured, ?_⟩
  rw [upgradeHeader, lookup_canonicalizeRequestHeaders (by decide +kernel) (by decide),
    if_pos hnamed]

end GGateway.Proxy
