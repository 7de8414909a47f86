import GGateway.Proxy.Headers
import GGateway.Text.Trim

/-!
# Canonicalised requests

What `CanonicalizeRequestHeaders` writes is read again by `ValidateRequest`.

* `listed_join`: a captured list is one line of trimmed elements without commas, and
  that line is read back element by element.
* `Accepts`: what `ValidateRequest` has checked, as one structure.
* `canonicalized_again`: the request is accepted again with the same negotiation, every
  field that ends at the gateway is gone, everything else is untouched, and a second
  application changes nothing.
-/

namespace GGateway.WebSocket

open Text Library.Checks Library.SortedSet
open Proxy (hopByHopHeaders)

/-! ## Lists on several lines -/

/-- An element of a list is trimmed and has no comma. -/
theorem trimmed_of_mem_listed {values : List Bytes} {part : Bytes} (h : part ∈ listed values) :
    trimSpace part = part ∧ (44 : UInt8) ∉ part := by
  obtain ⟨value, _, hpart⟩ := List.mem_flatMap.mp h
  obtain ⟨piece, hpiece, rfl⟩ := List.mem_map.mp hpart
  constructor
  · exact trimSpace_trimSpace piece
  · intro hcomma
    exact ((mem_of_mem_split piece hpiece).2 44 (mem_of_mem_trimSpace hcomma)).2 rfl

/-- Such elements, joined to one line, are read back. -/
theorem listed_join {parts : List Bytes} (hne : parts ≠ [])
    (h : ∀ part ∈ parts, trimSpace part = part ∧ (44 : UInt8) ∉ part) :
    listed [join parts (ascii ", ")] = parts := by
  obtain ⟨first, rest, rfl⟩ := List.exists_cons_of_ne_nil hne
  have hrest : rest.map (fun part => trimSpace (32 :: part)) = rest := by
    conv_rhs => rw [← List.map_id rest]
    refine List.map_congr_left fun part hpart => ?_
    rw [trimSpace_cons_space]
    exact (h part (List.mem_cons_of_mem _ hpart)).1
  rw [listed, List.flatMap_singleton, split_join fun part hpart => (h part hpart).2, List.map_cons,
    List.map_map, (h first List.mem_cons_self).1]
  exact congrArg (first :: ·) hrest

/-- The field that a captured list is written to. -/
def restored (parts : List Bytes) : List Bytes :=
  if parts = [] then [] else [join parts (ascii ", ")]

/-- A captured list is captured again. -/
theorem commaValues_restored {values parts : List Bytes} {tokensOnly : Bool}
    (h : commaValues values tokensOnly = some parts) :
    commaValues (restored parts) tokensOnly = some parts := by
  obtain ⟨rfl, hgood⟩ := commaValues_eq_some.mp h
  rw [commaValues_eq_some]
  refine ⟨?_, hgood⟩
  unfold restored
  split_ifs with hnil
  · rw [hnil]
    rfl
  · exact listed_join hnil fun part hpart => trimmed_of_mem_listed hpart

/-! ## Accepted requests -/

/-- What `ValidateRequest` has checked. -/
structure Accepts (tables : UnicodeTables) (request : ServerRequest)
    (captured : RequestHandshake) : Prop where
  protocol : request.protoMajor = 1 ∧ request.protoMinor = 1
  method : request.method = ascii "GET"
  connection : hasToken tables (request.header.values (ascii "Connection")) (ascii "upgrade") = true
  upgrade : hasToken tables (request.header.values (ascii "Upgrade")) (ascii "websocket") = true
  connectionTokens : semanticTokens tables (request.header.values (ascii "Connection")) =
    some captured.connectionTokens
  upgradeTokens : semanticTokens tables (request.header.values (ascii "Upgrade")) =
    some captured.upgradeTokens
  version : commaValues (request.header.values (ascii "Sec-WebSocket-Version")) true =
    some [ascii "13"]
  key : requestKey (request.header.values (ascii "Sec-WebSocket-Key")) = some captured.key
  body : ¬(0 < request.contentLength ∨ request.hasBody = true)
  protocols : commaValues (request.header.values (ascii "Sec-WebSocket-Protocol")) true =
    some captured.protocols
  distinct : captured.protocols.Nodup
  extensions : commaValues (request.header.values (ascii "Sec-WebSocket-Extensions")) false =
    some captured.extensions

theorem validateRequest_eq_ok {tables : UnicodeTables} {request : ServerRequest}
    {captured : RequestHandshake} :
    validateRequest tables request = .ok captured ↔ Accepts tables request captured := by
  simp only [validateRequest, bind_eq_ok, require_eq_ok, demand_eq_ok, decide_eq_true_eq]
  constructor
  · rintro ⟨_, hprotocol, _, hmethod, _, hconnection, _, hupgrade, tokens, htokens, upgrades,
      hupgrades, _, hversion, key, hkey, _, hbody, protocols, hprotocols, _, ⟨hdistinct, _⟩,
      extensions, hextensions, hresult⟩
    obtain rfl := Except.ok.inj hresult
    exact ⟨hprotocol, hmethod, hconnection, hupgrade, htokens, hupgrades, hversion, hkey, hbody,
      hprotocols, hdistinct, hextensions⟩
  · rintro ⟨hprotocol, hmethod, hconnection, hupgrade, htokens, hupgrades, hversion, hkey, hbody,
      hprotocols, hdistinct, hextensions⟩
    -- The tokens have been checked when the list was read.
    have htoken : captured.protocols.all validToken = true :=
      List.all_eq_true.mpr fun protocol hmem =>
        ((commaValues_eq_some.mp hprotocols).2 protocol hmem).2 rfl
    exact ⟨(), hprotocol, (), hmethod, (), hconnection, (), hupgrade, _, htokens, _, hupgrades, (),
      hversion, _, hkey, (), hbody, _, hprotocols, (), ⟨hdistinct, htoken⟩, _, hextensions, rfl⟩

/-- There is one key, and it is accepted on its own. -/
theorem requestKey_singleton {keys : List Bytes} {key : Bytes} (h : requestKey keys = some key) :
    requestKey [key] = some key := by
  match keys with
  | [only] =>
    have hsame : only = key := by
      dsimp only [requestKey] at h
      split_ifs at h
      exact Option.some.inj h
    rw [← hsame] at h ⊢
    exact h
  | [] => exact nomatch h
  | _ :: _ :: _ => exact nomatch h

/-- Every element that `Connection` names is a token. -/
theorem Accepts.tokens {tables : UnicodeTables} {request : ServerRequest}
    {captured : RequestHandshake} (h : Accepts tables request captured) :
    ∀ token ∈ listed (request.header.values (ascii "Connection")), validToken token = true := by
  have htokens := h.connectionTokens
  unfold semanticTokens at htokens
  split_ifs at htokens with hinvalid
  simpa using hinvalid

theorem semanticTokens_singleton (tables : UnicodeTables) {token : Bytes}
    (hlisted : listed [token] = [token]) (htoken : validToken token = true) :
    semanticTokens tables [token] = some [toLower tables token] := by
  simp [semanticTokens, hlisted, htoken, sortCompact]

/-! ## The canonical header -/

section Canonicalized

variable {tables : UnicodeTables} {request : ServerRequest} {header : Header}
  {captured again : RequestHandshake}

theorem values_canonicalizeRequestHeaders (header : Header) {captured : RequestHandshake}
    {field : Bytes × Option Bytes} (hfield : field ∈ captured.fields) :
    (canonicalizeRequestHeaders header captured).values field.1 = field.2.toList := by
  rw [Header.values, lookup_canonicalizeRequestHeaders_field header hfield]
  cases field.2 with
  | none => rfl
  | some value => rfl

/-- The fields of the handshake, as `ValidateRequest` reads them. -/
theorem values_restored (header : Header) (captured : RequestHandshake) :
    (canonicalizeRequestHeaders header captured).values (ascii "Connection") =
        [ascii "Upgrade"] ∧
      (canonicalizeRequestHeaders header captured).values (ascii "Upgrade") =
        [ascii "websocket"] ∧
      (canonicalizeRequestHeaders header captured).values (ascii "Sec-WebSocket-Key") =
        [captured.key] ∧
      (canonicalizeRequestHeaders header captured).values (ascii "Sec-WebSocket-Version") =
        [ascii "13"] ∧
      (canonicalizeRequestHeaders header captured).values (ascii "Sec-WebSocket-Protocol") =
        restored captured.protocols ∧
      (canonicalizeRequestHeaders header captured).values (ascii "Sec-WebSocket-Extensions") =
        restored captured.extensions := by
  have hfields : ∀ field ∈ captured.fields,
      (canonicalizeRequestHeaders header captured).values field.1 = field.2.toList :=
    fun field hfield => values_canonicalizeRequestHeaders header hfield
  have hlist : ∀ parts : List Bytes,
      (if parts = [] then none else some (join parts (ascii ", "))).toList = restored parts := by
    intro parts
    unfold restored
    split_ifs <;> rfl
  simp only [RequestHandshake.fields, List.forall_mem_cons, hlist] at hfields
  exact ⟨hfields.1, hfields.2.1, hfields.2.2.1, hfields.2.2.2.1, hfields.2.2.2.2.1,
    hfields.2.2.2.2.2.1⟩

/-- The request is accepted again, with the same negotiation. -/
theorem Accepts.canonicalized (h : Accepts tables request captured) :
    Accepts tables
      { request with header := canonicalizeRequestHeaders request.header captured }
      { captured with
        connectionTokens := [ascii "upgrade"]
        upgradeTokens := [ascii "websocket"] } := by
  obtain ⟨hconnection, hupgrade, hkey, hversion, hprotocols, hextensions⟩ :=
    values_restored request.header captured
  constructor
  · exact h.protocol
  · exact h.method
  · rw [hconnection]
    rfl
  · rw [hupgrade]
    rfl
  · rw [hconnection]
    exact semanticTokens_singleton tables (by decide) (by decide)
  · rw [hupgrade]
    exact semanticTokens_singleton tables (by decide) (by decide)
  · rw [hversion]
    decide
  · rw [hkey]
    exact requestKey_singleton h.key
  · exact h.body
  · rw [hprotocols]
    exact commaValues_restored h.protocols
  · exact h.distinct
  · rw [hextensions]
    exact commaValues_restored h.extensions

theorem map_fields (captured : RequestHandshake) :
    (captured.fields.map fun field => canonicalMIMEHeaderKey field.1) =
      controls.map canonicalMIMEHeaderKey := rfl

/-- A field that ends at the gateway and is no control is not sent on, in any spelling. -/
theorem sent_eq_nil (hcanonical : request.header.Canonical) (h : Accepts tables request captured)
    {name : Bytes} (hname : name ∈ hopByHopHeaders ∨
      name ∈ listed (request.header.values (ascii "Connection")))
    (hcontrol : canonicalMIMEHeaderKey name ∉ controls.map canonicalMIMEHeaderKey) :
    (canonicalizeRequestHeaders request.header captured).sent name = [] := by
  have htoken : validToken name = true := by
    rcases hname with hstandard | hnamed
    · have hall : ∀ name ∈ hopByHopHeaders, validToken name = true := by decide
      exact hall name hstandard
    · exact h.tokens name hnamed
  have hne : name ≠ [] := by
    rintro rfl
    exact Bool.false_ne_true htoken
  have hsub : hopByHopHeaders ⊆ handshakeHeaders := by decide
  rw [Header.sent_eq_values (canonical_canonicalizeRequestHeaders hcanonical captured) htoken,
    Header.values, lookup_canonicalizeRequestHeaders_other (map_fields captured ▸ hcontrol), if_pos]
  · rfl
  · rcases hname with hstandard | hnamed
    · exact .inl (List.mem_map_of_mem (hsub hstandard))
    · exact .inr (List.mem_map_of_mem (List.mem_filter.mpr ⟨hnamed, decide_eq_true hne⟩))

/-- What is neither a control, nor ends at the gateway, nor is named stays. -/
theorem lookup_kept {key : Bytes}
    (hkey : key ∉ handshakeHeaders.map canonicalMIMEHeaderKey)
    (hnamed : key ∉ (listed (request.header.values (ascii "Connection"))).map
      canonicalMIMEHeaderKey) :
    (canonicalizeRequestHeaders request.header captured).lookup key =
      request.header.lookup key := by
  have hother : key ∉ captured.fields.map fun field => canonicalMIMEHeaderKey field.1 := by
    intro hmem
    obtain ⟨field, hfield, rfl⟩ := List.mem_map.mp hmem
    exact hkey (key_mem_handshakeHeaders hfield)
  rw [lookup_canonicalizeRequestHeaders_other hother, if_neg]
  rintro (hstandard | hmem)
  · exact hkey hstandard
  · exact hnamed (List.map_subset _ (List.filter_subset_self _) hmem)

/-- After one application, a second one with the same negotiation finds nothing to do. -/
theorem canonicalize_twice (header : Header) (hkey : again.key = captured.key)
    (hprotocols : again.protocols = captured.protocols)
    (hextensions : again.extensions = captured.extensions) :
    (canonicalizeRequestHeaders (canonicalizeRequestHeaders header captured) again).SameMap
      (canonicalizeRequestHeaders header captured) := by
  have hfields : again.fields = captured.fields := by
    unfold RequestHandshake.fields
    rw [hkey, hprotocols, hextensions]
  apply Header.sameMap_of_lookup
  intro key
  by_cases hcontrol : key ∈ captured.fields.map fun field => canonicalMIMEHeaderKey field.1
  · obtain ⟨field, hfield, rfl⟩ := List.mem_map.mp hcontrol
    rw [lookup_canonicalizeRequestHeaders_field _ hfield,
      lookup_canonicalizeRequestHeaders_field _ (hfields.symm ▸ hfield)]
  rw [lookup_canonicalizeRequestHeaders_other (hfields.symm ▸ hcontrol)]
  split_ifs with hremoved
  · -- `Connection` now names `Upgrade` only, which was removed the first time.
    have hstandard : key ∈ handshakeHeaders.map canonicalMIMEHeaderKey := by
      rcases hremoved with hstandard | hnamed
      · exact hstandard
      rw [(values_restored header captured).1] at hnamed
      have hupgrade : ((listed [ascii "Upgrade"]).filter (· ≠ [])).map canonicalMIMEHeaderKey ⊆
          handshakeHeaders.map canonicalMIMEHeaderKey := by decide
      exact hupgrade hnamed
    rw [lookup_canonicalizeRequestHeaders_other hcontrol, if_pos (.inl hstandard)]
  · rfl

end Canonicalized

/-- Canonicalising the header of an accepted request keeps the negotiation, removes what
ends at the gateway, leaves everything else alone and has nothing to do the second time. -/
theorem canonicalized_again (tables : UnicodeTables) (request : ServerRequest)
    (hcanonical : request.header.Canonical) (captured : RequestHandshake)
    (h : validateRequest tables request = .ok captured) (header : Header)
    (hheader : canonicalizeRequestHeaders request.header captured = header) :
    (∃ again, validateRequest tables { request with header := header } = .ok again ∧
      again.key = captured.key ∧ again.protocols = captured.protocols ∧
      again.extensions = captured.extensions) ∧
    header.values (ascii "Connection") = [ascii "Upgrade"] ∧
    header.values (ascii "Upgrade") = [ascii "websocket"] ∧
    (∀ name, name ∈ hopByHopHeaders ∨
        name ∈ listed (request.header.values (ascii "Connection")) →
      canonicalMIMEHeaderKey name ∉ controls.map canonicalMIMEHeaderKey →
        header.sent name = []) ∧
    (∀ key, key ∉ (hopByHopHeaders ++ controls).map canonicalMIMEHeaderKey →
      key ∉ (listed (request.header.values (ascii "Connection"))).map canonicalMIMEHeaderKey →
        header.lookup key = request.header.lookup key) ∧
    ∀ again, again.key = captured.key → again.protocols = captured.protocols →
      again.extensions = captured.extensions →
        (canonicalizeRequestHeaders header again).SameMap header := by
  subst hheader
  have haccepts := validateRequest_eq_ok.mp h
  have hrestored := values_restored request.header captured
  refine ⟨⟨_, validateRequest_eq_ok.mpr haccepts.canonicalized, rfl, rfl, rfl⟩, hrestored.1,
    hrestored.2.1, ?_, ?_, ?_⟩
  · intro name hname hcontrol
    exact sent_eq_nil hcanonical haccepts hname hcontrol
  · intro key hkey hnamed
    have hsub : handshakeHeaders ⊆ hopByHopHeaders ++ controls := by decide
    exact lookup_kept (fun hmem => hkey (List.map_subset _ hsub hmem)) hnamed
  · intro again hkey hprotocols hextensions
    exact canonicalize_twice request.header hkey hprotocols hextensions

/-- A request that offers subprotocols on two lines. -/
def offeringRequest : ServerRequest where
  protoMajor := 1
  protoMinor := 1
  method := ascii "GET"
  host := ascii "example.com"
  remoteAddr := ascii "192.0.2.1:4000"
  tls := false
  header := (Header.empty.setFields
    [(ascii "Connection", some (ascii "upgrade")), (ascii "Upgrade", some (ascii "WebSocket")),
      (ascii "Sec-WebSocket-Version", some (ascii "13")),
      (ascii "Sec-WebSocket-Key", some (ascii "AAAAAAAAAAAAAAAAAAAAAA==")),
      (ascii "Keep-Alive", some (ascii "timeout=5")),
      (ascii "Sec-WebSocket-Protocol", some (ascii "chat ,log"))]).add
        (ascii "Sec-WebSocket-Protocol") (ascii "trace")
  contentLength := 0
  hasBody := false

/-- The subprotocols are written to one line, and the field that ends here is gone. -/
theorem canonicalized_again_lines :
    ∃ captured, validateRequest .asciiOnly offeringRequest = .ok captured ∧
      captured.protocols = [ascii "chat", ascii "log", ascii "trace"] ∧
      (canonicalizeRequestHeaders offeringRequest.header captured).sent (ascii "Keep-Alive") =
        [] := by
  have haccepts : Accepts .asciiOnly offeringRequest
      ⟨ascii "AAAAAAAAAAAAAAAAAAAAAA==", [ascii "chat", ascii "log", ascii "trace"], [],
        [ascii "upgrade"], [ascii "websocket"]⟩ := by
    constructor
    case connectionTokens =>
      exact semanticTokens_singleton .asciiOnly (by decide +kernel) (by decide +kernel)
    case upgradeTokens =>
      exact semanticTokens_singleton .asciiOnly (by decide +kernel) (by decide +kernel)
    all_goals decide +kernel
  have hvalid := validateRequest_eq_ok.mpr haccepts
  have hlaw := canonicalized_again .asciiOnly offeringRequest (by decide +kernel) _ hvalid _ rfl
  exact ⟨_, hvalid, rfl, hlaw.2.2.2.1 _ (.inl (by decide +kernel)) (by decide +kernel)⟩

end GGateway.WebSocket
