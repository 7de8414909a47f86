import GGateway.Plugin.Chain
import GGateway.Text.Spelling

/-!
# The header-rewrite plugin

`internal/plugin/header_rewrite.go`, with the check of header names that it shares with the
request-id plugin.  A direction names headers to remove, to set and to add to; no header may
be named twice, and none that frames the message or ends at the gateway.
-/

namespace GGateway.Plugin

open Text Library.Checks
open GGateway.Upstream (indexed)

/-! ## Names that may be changed -/

def reservedMutableHeaders : List Bytes :=
  [ascii "connection", ascii "content-length", ascii "host", ascii "keep-alive",
    ascii "proxy-authenticate", ascii "proxy-authorization", ascii "proxy-connection",
    ascii "te", ascii "trailer", ascii "transfer-encoding", ascii "upgrade"]

def validateMutableHeaderName (tables : UnicodeTables) (raw : Bytes) : Except Message Bytes := do
  let name := canonicalMIMEHeaderKey raw
  require (name ≠ [] ∧ validToken raw) [.text (ascii "invalid header name "), .quoted raw]
  require (!reservedMutableHeaders.contains (toLower tables name))
    [.text (ascii "header "), .quoted name, .text (ascii " is reserved")]
  pure name

/-! ## Compiling -/

/-- `rewriteDirection`; the two maps are kept in one iteration order. -/
structure RewriteDirection where
  remove : List Bytes
  set : Header
  add : Header

structure RewriteConfig where
  request : RewriteDirection
  response : RewriteDirection

structure HeaderOperation where
  name : Bytes
  values : List Bytes
  deriving DecidableEq, Repr

structure CompiledDirection where
  remove : List Bytes
  set : List HeaderOperation
  add : List HeaderOperation
  deriving DecidableEq, Repr

/-- The names that were seen, each with the group it was seen in. -/
abbrev SeenNames := List (Bytes × Bytes)

def validStaticHeaderValue (value : Bytes) : Bool :=
  value.all fun current =>
    !(current == 13 || current == 10 || current == 0x7f ||
      (decide (current < 0x20) && current != 9))

/-- A name that no group has yet. -/
def requireUnseen (direction group name : Bytes) (seen : SeenNames) : Except Message Unit :=
  match seen.lookup name with
  | none => .ok ()
  | some previous =>
    .error [.text (direction ++ ascii ": header "), .quoted name,
      .text (ascii " appears in both " ++ previous ++ ascii " and " ++ group)]

/-- The loop over `Remove`. -/
def compileRemovals (tables : UnicodeTables) (direction : Bytes) :
    Nat → List Bytes → SeenNames → Except Message (List Bytes × SeenNames)
  | _, [], seen => .ok ([], seen)
  | index, raw :: rest, seen => do
      let name ← (validateMutableHeaderName tables raw).mapError fun cause =>
        Piece.text (indexed (direction ++ ascii ".remove") index ++ ascii ": ") :: cause
      requireUnseen direction (ascii "remove") name seen
      let (names, seen) ← compileRemovals tables direction (index + 1) rest
        ((name, ascii "remove") :: seen)
      pure (name :: names, seen)

/-- The loop of `compileHeaderOperations` over the entries of a map. -/
def compileHeaderOperations (tables : UnicodeTables) (direction group : Bytes) :
    List (Bytes × List Bytes) → SeenNames → Except Message (List HeaderOperation × SeenNames)
  | [], seen => .ok ([], seen)
  | (raw, values) :: rest, seen => do
      let field : Message :=
        [.text (direction ++ ascii "." ++ group ++ ascii "["), .quoted raw, .text (ascii "]")]
      let name ← (validateMutableHeaderName tables raw).mapError fun cause =>
        field ++ Piece.text (ascii ": ") :: cause
      requireUnseen direction group name seen
      require (values ≠ []) (field ++ [.text (ascii ": values must not be empty")])
      require (values.all validStaticHeaderValue)
        (field ++ [.text (indexed [] (values.findIdx fun value => !validStaticHeaderValue value) ++
          ascii ": invalid header value")])
      let (operations, seen) ← compileHeaderOperations tables direction group rest
        ((name, group) :: seen)
      pure (⟨name, values⟩ :: operations, seen)

/-- `sort.Slice` by name. -/
def sortOperations (operations : List HeaderOperation) : List HeaderOperation :=
  operations.mergeSort fun left right => decide (left.name ≤ right.name)

def compileRewriteDirection (tables : UnicodeTables) (name : Bytes)
    (direction : RewriteDirection) : Except Message CompiledDirection := do
  let (remove, seen) ← compileRemovals tables name 0 direction.remove []
  let (set, seen) ← compileHeaderOperations tables name (ascii "set") direction.set.entries seen
  let (add, _) ← compileHeaderOperations tables name (ascii "add") direction.add.entries seen
  pure ⟨sortStrings remove, sortOperations set, sortOperations add⟩

/-! ## Applying -/

def applyCompiledDirection (header : Header) (direction : CompiledDirection) : Header :=
  let header := direction.remove.foldl Header.del header
  let header := direction.set.foldl
    (fun header operation => header.assign operation.name operation.values) header
  direction.add.foldl (fun header operation =>
    operation.values.foldl (fun header value => header.add operation.name value) header) header

structure CompiledRewrite where
  request : CompiledDirection
  response : CompiledDirection

def CompiledRewrite.onRequest (rewrite : CompiledRewrite) : RequestHook :=
  fun context request =>
    (.go, context, { request with header := applyCompiledDirection request.header rewrite.request })

def CompiledRewrite.onResponse (rewrite : CompiledRewrite) : ResponseHook :=
  fun context response =>
    (none, context,
      { response with header := applyCompiledDirection response.header rewrite.response })

/-- `decodeStrictPluginJSON`; a blank configuration is the empty object. -/
def decodeStrictPluginJSON {α : Type} (decode : Bytes → Except Message α) (raw : Bytes) :
    Except Message α :=
  decode (if trimSpace raw = [] then ascii "\x7b\x7d" else raw)

/-- `headerRewriteDefinition`; `decode` is the strict decoder of its configuration. -/
def headerRewriteDefinition (tables : UnicodeTables)
    (decode : Bytes → Except Message RewriteConfig) : Definition where
  name := ascii "header-rewrite"
  version := ascii "1.0.0"
  requestOrder := 200
  responseOrder := 800
  compile := some fun raw => do
    let config ← decodeStrictPluginJSON decode raw
    let request ← compileRewriteDirection tables (ascii "request") config.request
    let response ← compileRewriteDirection tables (ascii "response") config.response
    let compiled : CompiledRewrite := ⟨request, response⟩
    pure ⟨some compiled.onRequest, some compiled.onResponse, 0⟩

/-! ## Names that were accepted -/

/-- An accepted name is a canonical token that is not reserved. -/
theorem mutable_of_validate {tables : UnicodeTables} {raw name : Bytes}
    (h : validateMutableHeaderName tables raw = .ok name) :
    canonicalMIMEHeaderKey name = name ∧ validToken name = true ∧
      name.map lowerByte ∉ reservedMutableHeaders := by
  simp only [validateMutableHeaderName, bind_eq_ok, require_eq_ok] at h
  obtain ⟨_, htoken, _, hfree, hname⟩ := h
  have htoken := of_decide_eq_true htoken
  cases hname
  have hvalid : validToken (canonicalMIMEHeaderKey raw) = true :=
    validToken_of_lower lowerByte_canonicalMIMEHeaderKey.symm htoken.2
  constructor
  · exact canonicalMIMEHeaderKey_idem raw
  constructor
  · exact hvalid
  · rw [toLower_ascii tables (lt_of_validToken hvalid)] at hfree
    simpa using hfree

end GGateway.Plugin
