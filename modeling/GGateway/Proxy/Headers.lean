import GGateway.WebSocket.Handshake

/-!
# Headers sent upstream

`internal/proxy/headers.go`, with the two places that use it: the rewrite of the
reverse proxy in `handler.go`, and the upgrade in `websocket.go`.

* `removeHopByHopHeaders` removes what `Connection` names and the fixed hop-by-hop fields.
* `rebuildForwardingHeaders` removes the forwarding fields and writes them again from
  the connection of the client.
* `rewriteHeader` does both in this order; `upgradeHeader` rebuilds first, and the
  handshake removes what `Connection` names afterwards.
-/

namespace GGateway.Proxy

open Text WebSocket

def hopByHopHeaders : List Bytes :=
  [ascii "Connection", ascii "Proxy-Connection", ascii "Keep-Alive", ascii "Proxy-Authenticate",
    ascii "Proxy-Authorization", ascii "TE", ascii "Trailer", ascii "Transfer-Encoding",
    ascii "Upgrade"]

def forwardingHeaders : List Bytes :=
  [ascii "Forwarded", ascii "X-Forwarded-For", ascii "X-Forwarded-Host",
    ascii "X-Forwarded-Proto", ascii "X-Forwarded-Port"]

def removeHopByHopHeaders (header : Header) : Header :=
  hopByHopHeaders.foldl Header.del
    ((listed (header.values (ascii "Connection"))).foldl Header.del header)

def requestPort (host : Bytes) (tls : Bool) : Bytes :=
  match splitHostPort host with
  | some (_, port) => port
  | none => if tls then ascii "443" else ascii "80"

/-- The address of the peer, without its port. -/
def clientIP (inbound : ServerRequest) : Bytes :=
  match splitHostPort inbound.remoteAddr with
  | some (host, _) => host
  | none => inbound.remoteAddr

variable (outbound : Header)

def rebuildForwardingHeaders (inbound : ServerRequest) : Header :=
  let outbound := forwardingHeaders.foldl Header.del outbound
  let outbound := if clientIP inbound = [] then outbound
    else outbound.set (ascii "X-Forwarded-For") (clientIP inbound)
  let outbound := outbound.set (ascii "X-Forwarded-Host") inbound.host
  let outbound := outbound.set (ascii "X-Forwarded-Proto")
    (if inbound.tls then ascii "https" else ascii "http")
  outbound.set (ascii "X-Forwarded-Port") (requestPort inbound.host inbound.tls)

/-- The headers after `Rewrite`; `out` is what the reverse proxy hands to it. -/
def rewriteHeader (out : Header) (inbound : ServerRequest) : Header :=
  rebuildForwardingHeaders (removeHopByHopHeaders out) inbound

/-- The headers that `serveWebSocket` sends, from the request that was validated again
after the plugins. -/
def upgradeHeader (inbound : ServerRequest) (captured : RequestHandshake) : Header :=
  canonicalizeRequestHeaders (rebuildForwardingHeaders inbound.header inbound) captured

/-! ## What the upstream is to see -/

/-- The forwarding fields with their values; a field without a value is absent. -/
def forwardingFields (inbound : ServerRequest) : List (Bytes × Option Bytes) :=
  [(ascii "Forwarded", none),
    (ascii "X-Forwarded-For", if clientIP inbound = [] then none else some (clientIP inbound)),
    (ascii "X-Forwarded-Host", some inbound.host),
    (ascii "X-Forwarded-Proto", some (if inbound.tls then ascii "https" else ascii "http")),
    (ascii "X-Forwarded-Port", some (requestPort inbound.host inbound.tls))]

/-- Every forwarding field says what the gateway knows of the client, whichever
spelling of its name is read. -/
def Forwards (inbound : ServerRequest) (header : Header) : Prop :=
  ∀ field ∈ forwardingFields inbound, header.sent field.1 = field.2.toList

theorem name_of_mem_forwardingFields {inbound : ServerRequest} {field : Bytes × Option Bytes}
    (h : field ∈ forwardingFields inbound) :
    validToken field.1 = true ∧ canonicalMIMEHeaderKey field.1 = field.1 ∧
      field.1 ∉ handshakeHeaders.map canonicalMIMEHeaderKey ∧ field.1 ≠ [] := by
  have hnames : ∀ name ∈ forwardingHeaders,
      validToken name = true ∧ canonicalMIMEHeaderKey name = name ∧
        name ∉ handshakeHeaders.map canonicalMIMEHeaderKey ∧ name ≠ [] := by decide
  have hmem : field.1 ∈ (forwardingFields inbound).map Prod.fst := List.mem_map_of_mem h
  exact hnames field.1 hmem

theorem rebuildForwardingHeaders_eq (inbound : ServerRequest) :
    rebuildForwardingHeaders outbound inbound =
      (forwardingHeaders.foldl Header.del outbound).setFields (forwardingFields inbound) := by
  unfold rebuildForwardingHeaders forwardingFields
  generalize forwardingHeaders.foldl Header.del outbound = cleared
  by_cases hclient : clientIP inbound = []
  · simp only [if_pos hclient, Header.setFields, List.foldl_cons, List.foldl_nil, Option.elim]
  · simp only [if_neg hclient, Header.setFields, List.foldl_cons, List.foldl_nil, Option.elim]

theorem canonical_rebuildForwardingHeaders {outbound : Header} (h : outbound.Canonical)
    (inbound : ServerRequest) : (rebuildForwardingHeaders outbound inbound).Canonical := by
  rw [rebuildForwardingHeaders_eq]
  exact (h.foldl_del forwardingHeaders).setFields (forwardingFields inbound)

/-- Rebuilding writes the forwarding fields, whatever was there. -/
theorem lookup_rebuildForwardingHeaders {inbound : ServerRequest}
    {field : Bytes × Option Bytes} (hfield : field ∈ forwardingFields inbound) :
    (rebuildForwardingHeaders outbound inbound).lookup field.1 =
      field.2.map fun value => [value] := by
  have hnames : (forwardingFields inbound).map (fun field => canonicalMIMEHeaderKey field.1) =
      forwardingHeaders.map canonicalMIMEHeaderKey := rfl
  have hnodup : (forwardingHeaders.map canonicalMIMEHeaderKey).Nodup := by decide
  rw [rebuildForwardingHeaders_eq, ← (name_of_mem_forwardingFields hfield).2.1]
  refine Header.lookup_setFields (hnames ▸ hnodup) (fun other hother => ?_) field hfield
  rw [Header.lookup_foldl_del, if_pos]
  exact hnames ▸ List.mem_map_of_mem hother

/-- Rebuilding leaves every other field alone. -/
theorem lookup_rebuildForwardingHeaders_of_not_mem (inbound : ServerRequest)
    {key : Bytes} (hother : key ∉ forwardingHeaders.map canonicalMIMEHeaderKey) :
    (rebuildForwardingHeaders outbound inbound).lookup key = outbound.lookup key := by
  rw [rebuildForwardingHeaders_eq, Header.lookup_setFields_of_not_mem hother,
    Header.lookup_foldl_del, if_neg hother]

/-- Rebuilding leaves `Connection` alone. -/
theorem values_rebuildForwardingHeaders (inbound : ServerRequest) :
    (rebuildForwardingHeaders outbound inbound).values (ascii "Connection") =
      outbound.values (ascii "Connection") := by
  unfold Header.values
  rw [lookup_rebuildForwardingHeaders_of_not_mem outbound inbound (by decide)]

/-- In a canonical header the fields are looked up at their own keys. -/
theorem forwards_iff {inbound : ServerRequest} {header : Header} (h : header.Canonical) :
    Forwards inbound header ↔ ∀ field ∈ forwardingFields inbound,
      (header.lookup field.1).getD [] = field.2.toList := by
  refine forall₂_congr fun field hfield => ?_
  obtain ⟨htoken, hname, _⟩ := name_of_mem_forwardingFields hfield
  rw [Header.sent_eq h htoken hname]

/-- The ordinary path tells the upstream what the gateway knows of the client.  The
upgrade path does exactly when `Connection` names none of the fields that were written:
the handshake removes what it names after they were rebuilt. -/
theorem forwarding_rebuilt_iff (tables : UnicodeTables) (inbound : ServerRequest)
    (hkeys : inbound.header.Canonical) :
    (∀ out : Header, out.Canonical → Forwards inbound (rewriteHeader out inbound)) ∧
      ∀ captured, validateRequest tables inbound = .ok captured →
        (Forwards inbound (upgradeHeader inbound captured) ↔
          ∀ field ∈ forwardingFields inbound, field.2 ≠ none →
            toLower tables field.1 ∉ captured.connectionTokens) := by
  refine ⟨fun out hout => ?_, fun captured hcaptured => ?_⟩
  · have hremoved : (removeHopByHopHeaders out).Canonical := (hout.foldl_del _).foldl_del _
    rw [rewriteHeader, forwards_iff (canonical_rebuildForwardingHeaders hremoved inbound)]
    intro field hfield
    rw [lookup_rebuildForwardingHeaders _ hfield]
    cases field.2 <;> rfl
  · have hrebuilt := canonical_rebuildForwardingHeaders hkeys inbound
    rw [upgradeHeader, forwards_iff (canonical_canonicalizeRequestHeaders hrebuilt captured)]
    refine forall₂_congr fun field hfield => ?_
    obtain ⟨htoken, hname, hother, hne⟩ := name_of_mem_forwardingFields hfield
    have hnamed := mem_connectionTokens hcaptured htoken
    rw [hname, ← values_rebuildForwardingHeaders inbound.header inbound] at hnamed
    rw [lookup_canonicalizeRequestHeaders hother hne, hnamed,
      lookup_rebuildForwardingHeaders _ hfield]
    -- A field that `Connection` names is lost, and only a field with a value is missed.
    split_ifs with hlost
    · cases field.2 <;> simp [hlost]
    · cases field.2 <;> simp [hlost]

/-- A request of a client at `10.0.0.1` for an upgrade. -/
def sampleUpgrade (connection : Bytes) : ServerRequest where
  protoMajor := 1
  protoMinor := 1
  method := ascii "GET"
  host := ascii "app.example.com"
  remoteAddr := ascii "10.0.0.1:5000"
  tls := false
  header := ⟨[(ascii "Connection", [connection]), (ascii "Upgrade", [ascii "websocket"]),
    (ascii "Sec-Websocket-Version", [ascii "13"]),
    (ascii "Sec-Websocket-Key", [ascii "dGhlIHNhbXBsZSBub25jZQ=="])],
    show [ascii "Connection", ascii "Upgrade", ascii "Sec-Websocket-Version",
      ascii "Sec-Websocket-Key"].Nodup by decide⟩
  contentLength := 0
  hasBody := false

theorem forwarding_rebuilt_iff_upgrade :
    ∃ captured, validateRequest .asciiOnly (sampleUpgrade (ascii "Upgrade")) = .ok captured ∧
      Forwards (sampleUpgrade (ascii "Upgrade"))
        (upgradeHeader (sampleUpgrade (ascii "Upgrade")) captured) := by
  have hcaptured : validateRequest .asciiOnly (sampleUpgrade (ascii "Upgrade")) =
      .ok ⟨ascii "dGhlIHNhbXBsZSBub25jZQ==", [], [], [ascii "upgrade"], [ascii "websocket"]⟩ := by
    decide +kernel
  refine ⟨_, hcaptured, ?_⟩
  refine ((forwarding_rebuilt_iff .asciiOnly (sampleUpgrade (ascii "Upgrade")) (by decide +kernel)).2 _
    hcaptured).mpr ?_
  decide +kernel

/-- A client that names `X-Forwarded-For` in `Connection` is unknown to the upstream. -/
theorem forwarding_rebuilt_fails :
    ∃ inbound captured, inbound.header.Canonical ∧
      validateRequest .asciiOnly inbound = .ok captured ∧
      clientIP inbound = ascii "10.0.0.1" ∧
      (upgradeHeader inbound captured).sent (ascii "X-Forwarded-For") = [] ∧
      ¬ Forwards inbound (upgradeHeader inbound captured) := by
  let inbound := sampleUpgrade (ascii "Upgrade, x-forwarded-for")
  have hkeys : inbound.header.Canonical := by decide +kernel
  have hok : (validateRequest .asciiOnly inbound).isOk = true := by decide +kernel
  have hclient : clientIP inbound = ascii "10.0.0.1" := by decide +kernel
  have hnamed : ascii "X-Forwarded-For" ∈ (listed ((rebuildForwardingHeaders inbound.header
      inbound).values (ascii "Connection"))).map canonicalMIMEHeaderKey := by decide +kernel
  obtain ⟨captured, hcaptured⟩ := Library.Checks.exists_of_isOk hok
  have hsent : (upgradeHeader inbound captured).sent (ascii "X-Forwarded-For") = [] := by
    have hcanonical := canonical_canonicalizeRequestHeaders
      (canonical_rebuildForwardingHeaders hkeys inbound) captured
    rw [upgradeHeader, Header.sent_eq hcanonical (by decide +kernel) (by decide +kernel),
      lookup_canonicalizeRequestHeaders (by decide +kernel) (by decide), if_pos hnamed]
    rfl
  refine ⟨inbound, captured, hkeys, hcaptured, hclient, hsent, fun hforwards => ?_⟩
  have hfield := hforwards (ascii "X-Forwarded-For", some (ascii "10.0.0.1")) (by decide +kernel)
  rw [hsent] at hfield
  exact List.cons_ne_nil _ _ hfield.symm

end GGateway.Proxy
