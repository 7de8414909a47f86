import GGateway.Library.Checks
import GGateway.Library.SortedSet
import GGateway.Text.Spelling

/-!
# The WebSocket handshake of a request

The request side of `internal/websocket/handshake.go`:

* `validateRequest` checks a classic handshake and captures it.  The tokens of
  `Connection` and of `Upgrade` are captured in lower case, sorted and without
  repetitions.
* `canonicalizeRequestHeaders` removes the fields that end at the gateway, those
  that `Connection` names among them, and writes the captured handshake back.
-/

namespace GGateway.WebSocket

open Text Library.Checks Library.SortedSet

/-- `RequestHandshake`. -/
structure RequestHandshake where
  key : Bytes
  protocols : List Bytes
  extensions : List Bytes
  connectionTokens : List Bytes
  upgradeTokens : List Bytes
  deriving DecidableEq

/-- The text of a wrapped `ErrInvalidHandshake`. -/
def invalid (category : Bytes) : Bytes :=
  ascii "invalid WebSocket handshake: " ++ category

/-! ## Lists of tokens -/

/-- The elements of the comma separated lists, without the space around them. -/
def listed (values : List Bytes) : List Bytes :=
  values.flatMap fun value => (split value 44).map trimSpace

variable (tables : UnicodeTables)

def hasToken (values : List Bytes) (want : Bytes) : Bool :=
  (listed values).any fun token => equalFold tables token want

def semanticTokens (values : List Bytes) : Option (List Bytes) :=
  if !(listed values).all validToken then none
  else if (listed values).isEmpty then none
  else some (sortCompact (· ≤ ·) ((listed values).map (toLower tables)))

def commaValues (values : List Bytes) (tokensOnly : Bool) : Option (List Bytes) :=
  if (listed values).any fun part => part.isEmpty || (tokensOnly && !validToken part) then none
  else some (listed values)

/-- The elements of an accepted list are those of the header lines. -/
theorem commaValues_eq_some {values parts : List Bytes} {tokensOnly : Bool} :
    commaValues values tokensOnly = some parts ↔
      listed values = parts ∧
        ∀ part ∈ parts, part ≠ [] ∧ (tokensOnly = true → validToken part = true) := by
  unfold commaValues
  split_ifs with hbad
  · simp only [false_iff, not_and]
    rintro rfl hgood
    obtain ⟨part, hmem, hpart⟩ := List.any_eq_true.mp hbad
    obtain ⟨hne, htoken⟩ := hgood part hmem
    cases tokensOnly with
    | false => simp [hne] at hpart
    | true => simp [hne, htoken rfl] at hpart
  · rw [Option.some.injEq]
    constructor
    · rintro rfl
      refine ⟨rfl, ?_⟩
      intro part hmem
      have hpart : ¬(part.isEmpty || (tokensOnly && !validToken part)) = true := fun h =>
        hbad (List.any_eq_true.mpr ⟨part, hmem, h⟩)
      simp only [Bool.or_eq_true, List.isEmpty_iff, Bool.and_eq_true, Bool.not_eq_true', not_or,
        not_and, Bool.not_eq_false] at hpart
      exact hpart
    · exact And.left

/-- The single nonce of sixteen bytes. -/
def requestKey (keys : List Bytes) : Option Bytes :=
  match keys with
  | [key] =>
    if trimSpace key ≠ key ∨ key.contains 44 then none
    else if (base64Decode key).map List.length ≠ some 16 then none
    else some key
  | _ => none

/-! ## Requests -/

/-- `Candidate`. -/
def candidate (request : ServerRequest) : Bool :=
  hasToken tables (request.header.values (ascii "Connection")) (ascii "upgrade") ||
    hasToken tables (request.header.values (ascii "Upgrade")) (ascii "websocket")

/-- `ValidateRequest`. -/
def validateRequest (request : ServerRequest) :
    Except Bytes RequestHandshake := do
  let connection := request.header.values (ascii "Connection")
  let upgrade := request.header.values (ascii "Upgrade")
  require (request.protoMajor = 1 ∧ request.protoMinor = 1) (invalid (ascii "request protocol"))
  require (request.method = ascii "GET") (invalid (ascii "request method"))
  require (hasToken tables connection (ascii "upgrade")) (invalid (ascii "request connection"))
  require (hasToken tables upgrade (ascii "websocket")) (invalid (ascii "request upgrade"))
  let connectionTokens ←
    demand (semanticTokens tables connection) (invalid (ascii "request connection"))
  let upgradeTokens ← demand (semanticTokens tables upgrade) (invalid (ascii "request upgrade"))
  require (commaValues (request.header.values (ascii "Sec-WebSocket-Version")) true =
    some [ascii "13"]) (invalid (ascii "request version"))
  let key ← demand (requestKey (request.header.values (ascii "Sec-WebSocket-Key")))
    (invalid (ascii "request key"))
  require (¬ (0 < request.contentLength ∨ request.hasBody)) (invalid (ascii "request body"))
  let protocols ← demand (commaValues (request.header.values (ascii "Sec-WebSocket-Protocol")) true)
    (invalid (ascii "request subprotocol"))
  require (protocols.Nodup ∧ protocols.all validToken) (invalid (ascii "request subprotocol"))
  let extensions ←
    demand (commaValues (request.header.values (ascii "Sec-WebSocket-Extensions")) false)
      (invalid (ascii "request extensions"))
  pure ⟨key, protocols, extensions, connectionTokens, upgradeTokens⟩

/-- The names of the handshake, whatever was captured. -/
def controls : List Bytes :=
  [ascii "Connection", ascii "Upgrade", ascii "Sec-WebSocket-Key", ascii "Sec-WebSocket-Version",
    ascii "Sec-WebSocket-Protocol", ascii "Sec-WebSocket-Extensions"]

/-- The fields that `ValidateRequest` reads. -/
theorem validateRequest_congr {left right : ServerRequest}
    (hmajor : left.protoMajor = right.protoMajor) (hminor : left.protoMinor = right.protoMinor)
    (hmethod : left.method = right.method) (hlength : left.contentLength = right.contentLength)
    (hbody : left.hasBody = right.hasBody)
    (hvalues : ∀ name ∈ controls, left.header.values name = right.header.values name) :
    validateRequest tables left = validateRequest tables right := by
  simp only [controls, List.forall_mem_cons] at hvalues
  obtain ⟨hconnection, hupgrade, hkey, hversion, hprotocol, hextensions, _⟩ := hvalues
  unfold validateRequest
  rw [hmajor, hminor, hmethod, hlength, hbody, hconnection, hupgrade, hversion, hkey, hprotocol,
    hextensions]

/-! ## Headers -/

/-- The fields that `CanonicalizeRequestHeaders` removes from every request. -/
def handshakeHeaders : List Bytes :=
  [ascii "Connection", ascii "Proxy-Connection", ascii "Keep-Alive", ascii "Proxy-Authenticate",
    ascii "Proxy-Authorization", ascii "TE", ascii "Trailer", ascii "Transfer-Encoding",
    ascii "Upgrade", ascii "Sec-WebSocket-Key", ascii "Sec-WebSocket-Version",
    ascii "Sec-WebSocket-Protocol", ascii "Sec-WebSocket-Extensions"]

/-- The handshake as it is written back. -/
def RequestHandshake.write (captured : RequestHandshake) (header : Header) : Header :=
  let header := header.set (ascii "Connection") (ascii "Upgrade")
  let header := header.set (ascii "Upgrade") (ascii "websocket")
  let header := header.set (ascii "Sec-WebSocket-Key") captured.key
  let header := header.set (ascii "Sec-WebSocket-Version") (ascii "13")
  let header := if captured.protocols = [] then header
    else header.set (ascii "Sec-WebSocket-Protocol") (join captured.protocols (ascii ", "))
  if captured.extensions = [] then header
  else header.set (ascii "Sec-WebSocket-Extensions") (join captured.extensions (ascii ", "))

/-- `CanonicalizeRequestHeaders`. -/
def canonicalizeRequestHeaders (header : Header) (captured : RequestHandshake) : Header :=
  let named := (listed (header.values (ascii "Connection"))).filter (· ≠ [])
  captured.write (handshakeHeaders.foldl Header.del (named.foldl Header.del header))

def RequestHandshake.fields (captured : RequestHandshake) : List (Bytes × Option Bytes) :=
  [(ascii "Connection", some (ascii "Upgrade")), (ascii "Upgrade", some (ascii "websocket")),
    (ascii "Sec-WebSocket-Key", some captured.key),
    (ascii "Sec-WebSocket-Version", some (ascii "13")),
    (ascii "Sec-WebSocket-Protocol",
      if captured.protocols = [] then none else some (join captured.protocols (ascii ", "))),
    (ascii "Sec-WebSocket-Extensions",
      if captured.extensions = [] then none else some (join captured.extensions (ascii ", ")))]

theorem write_eq (captured : RequestHandshake) (header : Header) :
    captured.write header = header.setFields captured.fields := by
  unfold RequestHandshake.write RequestHandshake.fields
  split_ifs <;> rfl

theorem canonical_canonicalizeRequestHeaders {header : Header} (h : header.Canonical)
    (captured : RequestHandshake) : (canonicalizeRequestHeaders header captured).Canonical := by
  rw [canonicalizeRequestHeaders, write_eq]
  exact ((h.foldl_del _).foldl_del _).setFields captured.fields

/-- The names of the handshake are removed before it is written back. -/
theorem key_mem_handshakeHeaders {captured : RequestHandshake} {field : Bytes × Option Bytes}
    (h : field ∈ captured.fields) :
    canonicalMIMEHeaderKey field.1 ∈ handshakeHeaders.map canonicalMIMEHeaderKey := by
  have hsub : controls ⊆ handshakeHeaders := by decide
  have hname : field.1 ∈ captured.fields.map Prod.fst := List.mem_map_of_mem h
  exact List.mem_map_of_mem (hsub hname)

/-- The fields of the handshake say what was captured, whatever was there. -/
theorem lookup_canonicalizeRequestHeaders_field (header : Header) {captured : RequestHandshake}
    {field : Bytes × Option Bytes} (hfield : field ∈ captured.fields) :
    (canonicalizeRequestHeaders header captured).lookup (canonicalMIMEHeaderKey field.1) =
      field.2.map fun value => [value] := by
  have hnodup : (controls.map canonicalMIMEHeaderKey).Nodup := by decide
  have hkeys : (captured.fields.map fun field => canonicalMIMEHeaderKey field.1).Nodup := hnodup
  rw [canonicalizeRequestHeaders, write_eq]
  refine Header.lookup_setFields hkeys (fun other hother => ?_) field hfield
  rw [Header.lookup_foldl_del, if_pos (key_mem_handshakeHeaders hother)]

/-- Any other field is removed with the handshake, or because `Connection` names it, or is
kept. -/
theorem lookup_canonicalizeRequestHeaders_other {key : Bytes} {captured : RequestHandshake}
    (hkey : key ∉ captured.fields.map fun field => canonicalMIMEHeaderKey field.1)
    (header : Header) :
    (canonicalizeRequestHeaders header captured).lookup key =
      if key ∈ handshakeHeaders.map canonicalMIMEHeaderKey ∨
          key ∈ ((listed (header.values (ascii "Connection"))).filter (· ≠ [])).map
            canonicalMIMEHeaderKey then none
      else header.lookup key := by
  rw [canonicalizeRequestHeaders, write_eq, Header.lookup_setFields_of_not_mem hkey,
    Header.lookup_foldl_del, Header.lookup_foldl_del, ← ite_or]

/-- A field outside the handshake is kept unless `Connection` names it. -/
theorem lookup_canonicalizeRequestHeaders {key : Bytes}
    (hkey : key ∉ handshakeHeaders.map canonicalMIMEHeaderKey) (hne : key ≠ []) (header : Header)
    (captured : RequestHandshake) :
    (canonicalizeRequestHeaders header captured).lookup key =
      if key ∈ (listed (header.values (ascii "Connection"))).map canonicalMIMEHeaderKey then none
      else header.lookup key := by
  have hempty : canonicalMIMEHeaderKey [] = [] := rfl
  -- The empty token names no field that is looked at here.
  have hnamed : ∀ tokens : List Bytes, key ∈ (tokens.filter (· ≠ [])).map canonicalMIMEHeaderKey ↔
      key ∈ tokens.map canonicalMIMEHeaderKey := by
    intro tokens
    simp only [List.mem_map, List.mem_filter, decide_eq_true_eq]
    constructor
    · rintro ⟨token, ⟨htoken, _⟩, hsame⟩
      exact ⟨token, htoken, hsame⟩
    · rintro ⟨token, htoken, rfl⟩
      refine ⟨token, ⟨htoken, ?_⟩, rfl⟩
      rintro rfl
      exact hne hempty
  have hwritten : key ∉ captured.fields.map fun field => canonicalMIMEHeaderKey field.1 := by
    intro hmem
    obtain ⟨field, hfield, rfl⟩ := List.mem_map.mp hmem
    exact hkey (key_mem_handshakeHeaders hfield)
  rw [lookup_canonicalizeRequestHeaders_other hwritten]
  simp only [hkey, hnamed, false_or]

/-- What `Connection` names, in lower case, is what was captured. -/
theorem mem_connectionTokens {tables : UnicodeTables} {request : ServerRequest}
    {captured : RequestHandshake} (h : validateRequest tables request = .ok captured)
    {name : Bytes} (hname : validToken name = true) :
    toLower tables name ∈ captured.connectionTokens ↔
      canonicalMIMEHeaderKey name ∈
        (listed (request.header.values (ascii "Connection"))).map canonicalMIMEHeaderKey := by
  simp only [validateRequest, bind_eq_ok, require_eq_ok, demand_eq_ok] at h
  obtain ⟨_, _, _, _, _, _, _, _, tokens, htokens, _, _, _, _, _, _, _, _, _, _, _, _, _, _,
    hresult⟩ := h
  cases hresult
  unfold semanticTokens at htokens
  split_ifs at htokens with hinvalid hnone
  cases htokens
  have hvalid : ∀ token ∈ listed (request.header.values (ascii "Connection")),
      validToken token = true := by
    simpa using hinvalid
  have hlower : ∀ {token : Bytes}, validToken token = true →
      toLower tables token = token.map lowerByte :=
    fun htoken => toLower_ascii tables (lt_of_validToken htoken)
  rw [mem_sortCompact, List.mem_map, List.mem_map]
  constructor
  · rintro ⟨token, hmem, hsame⟩
    rw [hlower (hvalid token hmem), hlower hname] at hsame
    exact ⟨token, hmem, (canonicalMIMEHeaderKey_of_lower hsame (hvalid token hmem)).symm⟩
  · rintro ⟨token, hmem, hsame⟩
    refine ⟨token, hmem, ?_⟩
    rw [hlower (hvalid token hmem), hlower hname, ← lowerByte_canonicalMIMEHeaderKey, hsame,
      lowerByte_canonicalMIMEHeaderKey]

end GGateway.WebSocket
