import GGateway.Text.Trim
import GGateway.WebSocket.Handshake

/-!
# The WebSocket handshake of a response

The response side of `internal/websocket/handshake.go`:

* `validateResponse` checks a 101 response against the captured request and captures
  what was negotiated.
* `validateFinalResponse` compares the response that plugins have left with what was
  captured; it neither knows the request nor asks whether values are tokens.

`final_response_iff` says that the second check is the first one made again.
-/

namespace GGateway.WebSocket

open Text Library.Checks

/-- `ResponseHandshake`. -/
structure ResponseHandshake where
  accept : Bytes
  protocol : Bytes
  extensions : List Bytes
  deriving DecidableEq

/-- What is read of a response. -/
structure UpgradeResponse where
  status : Int
  header : Header

def websocketGUID : Bytes :=
  ascii "258EAFA5-E914-47DA-95CA-C5AB0DC85B11"

def accept (sha1 : Bytes → Bytes) (key : Bytes) : Bytes :=
  base64Encode (sha1 (key ++ websocketGUID))

/-- `ValidateResponse`. -/
def validateResponse (tables : UnicodeTables) (sha1 : Bytes → Bytes) (request : RequestHandshake)
    (response : UpgradeResponse) : Except Bytes ResponseHandshake := do
  require (response.status = 101) (invalid (ascii "response status"))
  require (hasToken tables (response.header.values (ascii "Connection")) (ascii "upgrade"))
    (invalid (ascii "response connection"))
  require (hasToken tables (response.header.values (ascii "Upgrade")) (ascii "websocket"))
    (invalid (ascii "response upgrade"))
  let acceptValues := response.header.values (ascii "Sec-WebSocket-Accept")
  let expectedAccept := accept sha1 request.key
  require (acceptValues.length = 1 ∧
    ∀ value ∈ acceptValues, trimSpace value = value ∧ value = expectedAccept)
    (invalid (ascii "response accept"))
  let protocols ←
    demand (commaValues (response.header.values (ascii "Sec-WebSocket-Protocol")) true)
      (invalid (ascii "response subprotocol"))
  require (protocols.length ≤ 1) (invalid (ascii "response subprotocol"))
  -- There is at most one element to be looked at.
  require (∀ protocol ∈ protocols, validToken protocol = true ∧ protocol ∈ request.protocols)
    (invalid (ascii "response subprotocol"))
  let extensions ←
    demand (commaValues (response.header.values (ascii "Sec-WebSocket-Extensions")) false)
      (invalid (ascii "response extensions"))
  pure ⟨expectedAccept, protocols.headD [], extensions⟩

/-- `ValidateFinalResponse`. -/
def validateFinalResponse (tables : UnicodeTables) (expected : ResponseHandshake)
    (response : UpgradeResponse) : Except Bytes Unit := do
  require (response.status = 101) (invalid (ascii "response status"))
  require (hasToken tables (response.header.values (ascii "Connection")) (ascii "upgrade"))
    (invalid (ascii "response connection"))
  require (hasToken tables (response.header.values (ascii "Upgrade")) (ascii "websocket"))
    (invalid (ascii "response upgrade"))
  let acceptValues := response.header.values (ascii "Sec-WebSocket-Accept")
  require (acceptValues.length = 1 ∧ ∀ value ∈ acceptValues, trimSpace value = expected.accept)
    (invalid (ascii "response accept"))
  let protocols ←
    demand (commaValues (response.header.values (ascii "Sec-WebSocket-Protocol")) true)
      (invalid (ascii "response subprotocol"))
  require (protocols.length ≤ 1) (invalid (ascii "response subprotocol"))
  require (protocols.headD [] = expected.protocol) (invalid (ascii "response subprotocol"))
  let extensions ←
    demand (commaValues (response.header.values (ascii "Sec-WebSocket-Extensions")) false)
      (invalid (ascii "response extensions"))
  require (extensions = expected.extensions) (invalid (ascii "response extensions"))

/-! ## What is checked -/

/-- What both functions check: the response switches protocols, and its lists can be
read. -/
structure UpgradeResponse.Offers (tables : UnicodeTables) (response : UpgradeResponse)
    (protocols extensions : List Bytes) : Prop where
  status : response.status = 101
  connection : hasToken tables (response.header.values (ascii "Connection")) (ascii "upgrade") = true
  upgrade : hasToken tables (response.header.values (ascii "Upgrade")) (ascii "websocket") = true
  single : protocols.length ≤ 1
  protocols : commaValues (response.header.values (ascii "Sec-WebSocket-Protocol")) true =
    some protocols
  extensions : commaValues (response.header.values (ascii "Sec-WebSocket-Extensions")) false =
    some extensions

theorem validateResponse_eq_ok {tables : UnicodeTables} {sha1 : Bytes → Bytes}
    {request : RequestHandshake} {response : UpgradeResponse} {negotiated : ResponseHandshake} :
    validateResponse tables sha1 request response = .ok negotiated ↔
      ∃ protocols, response.Offers tables protocols negotiated.extensions ∧
        response.header.values (ascii "Sec-WebSocket-Accept") = [negotiated.accept] ∧
        trimSpace negotiated.accept = negotiated.accept ∧
        negotiated.accept = accept sha1 request.key ∧
        negotiated.protocol = protocols.headD [] ∧
        ∀ protocol ∈ protocols, protocol ∈ request.protocols := by
  simp only [validateResponse, bind_eq_ok, require_eq_ok, demand_eq_ok,
    decide_eq_true_eq]
  constructor
  · rintro ⟨_, hstatus, _, hconnection, _, hupgrade, _, ⟨hone, haccept⟩, protocols, hprotocols, _,
      hsingle, _, hoffered, extensions, hextensions, hresult⟩
    obtain rfl := Except.ok.inj hresult
    obtain ⟨value, hvalue⟩ := List.length_eq_one_iff.mp hone
    have hvalues := haccept value (by rw [hvalue]; exact List.mem_singleton.mpr rfl)
    refine ⟨protocols, ⟨hstatus, hconnection, hupgrade, hsingle, hprotocols, hextensions⟩, ?_, ?_,
      rfl, rfl, fun protocol hmem => (hoffered protocol hmem).2⟩
    · rw [hvalue, hvalues.2]
    · rw [← hvalues.2]
      exact hvalues.1
  · rintro ⟨protocols, hoffers, hvalues, htrim, haccept, hprotocol, hoffered⟩
    refine ⟨(), hoffers.status, (), hoffers.connection, (), hoffers.upgrade, (), ⟨?_, ?_⟩,
      protocols, hoffers.protocols, (), hoffers.single, (), ?_, negotiated.extensions,
      hoffers.extensions, ?_⟩
    · rw [hvalues]
      rfl
    · intro value hvalue
      rw [hvalues, List.mem_singleton] at hvalue
      rw [hvalue]
      exact ⟨htrim, haccept⟩
    · intro protocol hmem
      exact ⟨((commaValues_eq_some.mp hoffers.protocols).2 protocol hmem).2 rfl,
        hoffered protocol hmem⟩
    · rw [← haccept, ← hprotocol]
      rfl

theorem validateFinalResponse_eq_ok {tables : UnicodeTables} {expected : ResponseHandshake}
    {response : UpgradeResponse} :
    validateFinalResponse tables expected response = .ok () ↔
      ∃ protocols, response.Offers tables protocols expected.extensions ∧
        (response.header.values (ascii "Sec-WebSocket-Accept")).map trimSpace =
          [expected.accept] ∧
        expected.protocol = protocols.headD [] := by
  simp only [validateFinalResponse, bind_eq_ok, require_eq_ok, demand_eq_ok,
    decide_eq_true_eq]
  constructor
  · rintro ⟨_, hstatus, _, hconnection, _, hupgrade, _, ⟨hone, haccept⟩, protocols, hprotocols, _,
      hsingle, _, hprotocol, extensions, hextensions, hsame⟩
    subst hsame
    obtain ⟨value, hvalue⟩ := List.length_eq_one_iff.mp hone
    refine ⟨protocols, ⟨hstatus, hconnection, hupgrade, hsingle, hprotocols, hextensions⟩, ?_,
      hprotocol.symm⟩
    rw [hvalue] at haccept ⊢
    exact congrArg (fun only => [only]) (haccept value (List.mem_singleton.mpr rfl))
  · rintro ⟨protocols, hoffers, hvalues, hprotocol⟩
    obtain ⟨value, hvalue, htrim⟩ := List.map_eq_singleton_iff.mp hvalues
    refine ⟨(), hoffers.status, (), hoffers.connection, (), hoffers.upgrade, (), ⟨?_, ?_⟩,
      protocols, hoffers.protocols, (), hoffers.single, (), hprotocol.symm, expected.extensions,
      hoffers.extensions, rfl⟩
    · rw [hvalue]
      rfl
    · intro other hother
      rw [hvalue, List.mem_singleton] at hother
      rw [hother, htrim]

/-! ## The check made again -/

/-- The response with its accept value trimmed. -/
def UpgradeResponse.trimAccept (response : UpgradeResponse) : UpgradeResponse :=
  let key := canonicalMIMEHeaderKey (ascii "Sec-WebSocket-Accept")
  match response.header.lookup key with
  | some values => { response with header := response.header.assign key (values.map trimSpace) }
  | none => response

theorem values_trimAccept (response : UpgradeResponse) (name : Bytes) :
    response.trimAccept.header.values name =
      if canonicalMIMEHeaderKey name = canonicalMIMEHeaderKey (ascii "Sec-WebSocket-Accept") then
        (response.header.values name).map trimSpace
      else response.header.values name := by
  unfold UpgradeResponse.trimAccept Header.values
  dsimp only
  cases hvalues : response.header.lookup
      (canonicalMIMEHeaderKey (ascii "Sec-WebSocket-Accept")) with
  | none =>
    split_ifs with hname
    · rw [hname, hvalues]
      rfl
    · rfl
  | some values =>
    rw [Header.lookup_assign]
    split_ifs with hname
    · rw [hname, hvalues]
      rfl
    · rfl

/-- Trimming the accept value changes nothing else. -/
theorem offers_trimAccept {tables : UnicodeTables} {response : UpgradeResponse}
    {protocols extensions : List Bytes} :
    response.trimAccept.Offers tables protocols extensions ↔
      response.Offers tables protocols extensions := by
  have hstatus : response.trimAccept.status = response.status := by
    unfold UpgradeResponse.trimAccept
    dsimp only
    split <;> rfl
  have hother : ∀ name ∈ [ascii "Connection", ascii "Upgrade", ascii "Sec-WebSocket-Protocol",
      ascii "Sec-WebSocket-Extensions"],
      response.trimAccept.header.values name = response.header.values name := by
    intro name hname
    rw [values_trimAccept, if_neg]
    revert name
    decide
  simp only [List.forall_mem_cons] at hother
  obtain ⟨hconnection, hupgrade, hprotocol, hextensions, _⟩ := hother
  constructor
  · rintro ⟨h1, h2, h3, h4, h5, h6⟩
    rw [hstatus] at h1
    rw [hconnection] at h2
    rw [hupgrade] at h3
    rw [hprotocol] at h5
    rw [hextensions] at h6
    exact ⟨h1, h2, h3, h4, h5, h6⟩
  · rintro ⟨h1, h2, h3, h4, h5, h6⟩
    exact ⟨hstatus ▸ h1, hconnection ▸ h2, hupgrade ▸ h3, h4, hprotocol ▸ h5, hextensions ▸ h6⟩

section Final

variable {tables : UnicodeTables} {sha1 : Bytes → Bytes} {request : RequestHandshake}
  {response final : UpgradeResponse} {negotiated : ResponseHandshake}

/-- A list of at most one element is determined by its first one. -/
theorem eq_of_headD {values others : List Bytes} (hvalues : values.length ≤ 1)
    (hothers : others.length ≤ 1) (hnonempty : ∀ value ∈ values, value ≠ [])
    (hnonempty' : ∀ value ∈ others, value ≠ []) (h : values.headD [] = others.headD []) :
    values = others := by
  match values, others with
  | [], [] => rfl
  | [], [other] => exact absurd h.symm (hnonempty' other List.mem_cons_self)
  | [value], [] => exact absurd h (hnonempty value List.mem_cons_self)
  | [value], [other] => exact congrArg (fun only => [only]) h
  | _ :: _ :: _, _ => exact absurd hvalues (by simp)
  | _, _ :: _ :: _ => exact absurd hothers (by simp)

/-- A final response that is accepted offers the lists that were negotiated. -/
theorem protocols_of_validateFinalResponse
    (h : validateResponse tables sha1 request response = .ok negotiated)
    (hfinal : validateFinalResponse tables negotiated final = .ok ()) :
    ∃ protocols, response.Offers tables protocols negotiated.extensions ∧
      final.Offers tables protocols negotiated.extensions ∧
      negotiated.protocol = protocols.headD [] ∧
      ∀ protocol ∈ protocols, protocol ∈ request.protocols := by
  obtain ⟨protocols, hoffers, -, -, -, hprotocol, hoffered⟩ := validateResponse_eq_ok.mp h
  obtain ⟨finalProtocols, hfinalOffers, -, hfinalProtocol⟩ :=
    validateFinalResponse_eq_ok.mp hfinal
  have hnonempty : ∀ {response : UpgradeResponse} {protocols extensions : List Bytes},
      response.Offers tables protocols extensions → ∀ protocol ∈ protocols, protocol ≠ [] :=
    fun hoffers protocol hmem => ((commaValues_eq_some.mp hoffers.protocols).2 protocol hmem).1
  have hsame : protocols = finalProtocols :=
    eq_of_headD hoffers.single hfinalOffers.single (hnonempty hoffers) (hnonempty hfinalOffers)
      (hprotocol.symm.trans hfinalProtocol)
  subst hsame
  exact ⟨protocols, hoffers, hfinalOffers, hprotocol, hoffered⟩

end Final

/-- The check after the plugins accepts exactly the responses that validate again to the
same negotiation once the accept value is trimmed.  So what a client is told under the
three names is what the upstream has negotiated. -/
theorem final_response_iff (tables : UnicodeTables) (sha1 : Bytes → Bytes)
    (request : RequestHandshake) (response : UpgradeResponse) (negotiated : ResponseHandshake)
    (h : validateResponse tables sha1 request response = .ok negotiated)
    (final : UpgradeResponse) :
    (validateFinalResponse tables negotiated final = .ok () ↔
      validateResponse tables sha1 request final.trimAccept = .ok negotiated) ∧
    (validateFinalResponse tables negotiated final = .ok () →
      listed (final.header.values (ascii "Sec-WebSocket-Protocol")) =
          listed (response.header.values (ascii "Sec-WebSocket-Protocol")) ∧
        listed (final.header.values (ascii "Sec-WebSocket-Extensions")) =
          listed (response.header.values (ascii "Sec-WebSocket-Extensions")) ∧
        (final.header.values (ascii "Sec-WebSocket-Accept")).map trimSpace =
          response.header.values (ascii "Sec-WebSocket-Accept") ∧
        (final.header.Canonical → ∀ name ∈ [ascii "Sec-WebSocket-Protocol",
          ascii "Sec-WebSocket-Extensions", ascii "Sec-WebSocket-Accept"],
            final.header.sent name = final.header.values name)) := by
  obtain ⟨_, -, hvalues, htrim, haccept, -, -⟩ := validateResponse_eq_ok.mp h
  constructor
  · constructor
    · intro hfinal
      obtain ⟨_, -, hannounced, -⟩ := validateFinalResponse_eq_ok.mp hfinal
      obtain ⟨protocols, -, hoffers, hprotocol, hoffered⟩ :=
        protocols_of_validateFinalResponse h hfinal
      rw [validateResponse_eq_ok]
      refine ⟨protocols, offers_trimAccept.mpr hoffers, ?_, htrim, haccept, hprotocol, hoffered⟩
      rw [values_trimAccept, if_pos rfl, hannounced]
    · intro hagain
      obtain ⟨protocols, hoffers, hannounced, -, -, hprotocol, -⟩ :=
        validateResponse_eq_ok.mp hagain
      rw [values_trimAccept, if_pos rfl] at hannounced
      exact validateFinalResponse_eq_ok.mpr
        ⟨protocols, offers_trimAccept.mp hoffers, hannounced, hprotocol⟩
  · intro hfinal
    obtain ⟨_, -, hannounced, -⟩ := validateFinalResponse_eq_ok.mp hfinal
    obtain ⟨protocols, hoffers, hfinalOffers, -, -⟩ := protocols_of_validateFinalResponse h hfinal
    have hlisted : ∀ {values others parts : List Bytes} {tokensOnly : Bool},
        commaValues values tokensOnly = some parts → commaValues others tokensOnly = some parts →
          listed values = listed others :=
      fun hleft hright =>
        (commaValues_eq_some.mp hleft).1.trans (commaValues_eq_some.mp hright).1.symm
    refine ⟨hlisted hfinalOffers.protocols hoffers.protocols,
      hlisted hfinalOffers.extensions hoffers.extensions, hannounced.trans hvalues.symm, ?_⟩
    intro hcanonical name hname
    have hspelled : validToken name = true := by
      revert name
      decide
    exact Header.sent_eq_values hcanonical hspelled

def sampleHandshake : RequestHandshake :=
  ⟨ascii "AAAAAAAAAAAAAAAAAAAAAA==", [ascii "chat", ascii "log"], [], [ascii "upgrade"],
    [ascii "websocket"]⟩

/-- The upstream selects a subprotocol; `accepted` is its accept value. -/
def sampleSwitch (accepted : Bytes) : UpgradeResponse where
  status := 101
  header := Header.empty.setFields
    [(ascii "Connection", some (ascii "keep-alive, Upgrade")),
      (ascii "Upgrade", some (ascii "WebSocket")),
      (ascii "Sec-WebSocket-Accept", some accepted),
      (ascii "Sec-WebSocket-Protocol", some (ascii " chat "))]

def sampleSHA1 (text : Bytes) : Bytes :=
  (List.range 20).map fun index => text.foldl (fun sum byte => 31 * sum + byte) index.toUInt8

/-- A plugin puts space around the accept value. -/
theorem final_response_iff_spaced :
    let value := accept sampleSHA1 sampleHandshake.key
    validateResponse .asciiOnly sampleSHA1 sampleHandshake (sampleSwitch value) =
        .ok ⟨value, ascii "chat", []⟩ ∧
      validateFinalResponse .asciiOnly ⟨value, ascii "chat", []⟩
        (sampleSwitch (ascii " " ++ value ++ ascii "\t")) = .ok () ∧
      validateResponse .asciiOnly sampleSHA1 sampleHandshake
        (sampleSwitch (ascii " " ++ value ++ ascii "\t")).trimAccept =
          .ok ⟨value, ascii "chat", []⟩ := by
  intro value
  have hvalid : validateResponse .asciiOnly sampleSHA1 sampleHandshake (sampleSwitch value) =
      .ok ⟨value, ascii "chat", []⟩ := by
    decide +kernel
  have hfinal : validateFinalResponse .asciiOnly ⟨value, ascii "chat", []⟩
      (sampleSwitch (ascii " " ++ value ++ ascii "\t")) = .ok () := by
    decide +kernel
  exact ⟨hvalid, hfinal, (final_response_iff _ _ _ _ _ hvalid _).1.mp hfinal⟩

end GGateway.WebSocket
