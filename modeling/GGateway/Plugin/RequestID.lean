import GGateway.Plugin.HeaderRewrite
import GGateway.Text.Json

/-!
# The request-id plugin

`internal/plugin/request_id.go` and `NewBuiltinRegistry`.  The request hook keeps one valid
inbound ID, or draws a UUID, and records it; the response hook writes what was recorded.
The random source answers each read of sixteen bytes, or fails.
-/

namespace GGateway.Plugin

open Text Library.Checks

structure RequestIDConfig where
  headerName : Bytes
  maxInputLength : Int
  deriving DecidableEq, Repr

def defaultRequestIDConfig : RequestIDConfig :=
  ⟨ascii "X-Request-ID", 128⟩

/-- The reads of sixteen bytes, in order; `none` is a failed read. -/
abbrev RandomSource := Nat → Option (Vector UInt8 16)

structure RequestIDPlugin where
  headerName : Bytes
  maxLength : Int
  random : RandomSource

def validInboundRequestID (value : Bytes) (maxLength : Int) : Bool :=
  if value.length = 0 ∨ maxLength < value.length then false
  else value.all fun current =>
    isLowerLetter current || isUpperLetter current || isDigit current ||
      current == 46 || current == 95 || current == 58 || current == 45

/-- `hex.Encode`. -/
def hexEncode (source : Bytes) : Bytes :=
  source.flatMap fun byte => [hexDigit (byte.toNat / 16), hexDigit (byte.toNat % 16)]

/-- `generateUUIDv4` on the bytes that were read. -/
def generateUUIDv4 (source : Vector UInt8 16) : Bytes :=
  let source := source.set 6 ((source[6] &&& 0x0f) ||| 0x40)
  let source := (source.set 8 ((source[8] &&& 0x3f) ||| 0x80)).toList
  hexEncode (slice source 0 4) ++ [45] ++ hexEncode (slice source 4 6) ++ [45] ++
    hexEncode (slice source 6 8) ++ [45] ++ hexEncode (slice source 8 10) ++ [45] ++
    hexEncode (slice source 10 16)

namespace RequestIDPlugin

def onRequest (plugin : RequestIDPlugin) : RequestHook :=
  fun context request =>
    let record := fun (context : Context) (requestID : Bytes) =>
      (RequestResult.go, { context with requestID := requestID },
        { request with header := request.header.set plugin.headerName requestID })
    let draw := fun (_ : Unit) =>
      let drawn := { context with draws := context.draws + 1 }
      match plugin.random context.draws with
      | none => (.failed [.text (ascii "generate request ID: ")], drawn, request)
      | some source => record drawn (generateUUIDv4 source)
    match request.header.values plugin.headerName with
    | [value] =>
      if validInboundRequestID value plugin.maxLength then record context value else draw ()
    | _ => draw ()

def onResponse (plugin : RequestIDPlugin) : ResponseHook :=
  fun context response =>
    (none, context,
      { response with header := response.header.set plugin.headerName context.requestID })

end RequestIDPlugin

/-- `requestIDDefinition`; `decode` decodes over the given defaults. -/
def requestIDDefinition (tables : UnicodeTables) (random : Option RandomSource)
    (decode : RequestIDConfig → Bytes → Except Message RequestIDConfig) : Definition where
  name := ascii "request-id"
  version := ascii "1.0.0"
  requestOrder := 100
  responseOrder := 900
  compile := some fun raw => do
    let random ← demand random [.text (ascii "secure random reader is nil")]
    let config ← decodeStrictPluginJSON (decode defaultRequestIDConfig) raw
    let headerName ← (validateMutableHeaderName tables config.headerName).mapError fun cause =>
      Piece.text (ascii "header_name: ") :: cause
    require (1 ≤ config.maxInputLength ∧ config.maxInputLength ≤ 1024)
      [.text (ascii "max_input_length: must be between 1 and 1024")]
    let plugin : RequestIDPlugin := ⟨headerName, config.maxInputLength, random⟩
    pure ⟨some plugin.onRequest, some plugin.onResponse, 0⟩

/-- What the built-in plugins get from outside: the letter tables, the random source and the
strict decoders of `encoding/json`. -/
structure Builtins where
  tables : UnicodeTables
  random : RandomSource
  decodeRequestID : RequestIDConfig → Bytes → Except Message RequestIDConfig
  decodeRewrite : Bytes → Except Message RewriteConfig

/-- `NewBuiltinRegistry`. -/
def newBuiltinRegistry (builtins : Builtins) : Except Message Registry :=
  newRegistry [requestIDDefinition builtins.tables (some builtins.random) builtins.decodeRequestID,
    headerRewriteDefinition builtins.tables builtins.decodeRewrite]

/-! ## What is recorded -/

theorem length_generateUUIDv4 (source : Vector UInt8 16) : (generateUUIDv4 source).length = 36 := by
  have hhex : ∀ bytes : Bytes, (hexEncode bytes).length = 2 * bytes.length := by
    intro bytes
    induction bytes with
    | nil => rfl
    | cons byte rest ih =>
      simp only [hexEncode, List.flatMap_cons, List.length_append, List.length_cons,
        List.length_nil] at ih ⊢
      omega
  simp only [generateUUIDv4, List.length_append, hhex, slice, List.length_drop, List.length_take,
    Vector.length_toList, List.length_cons, List.length_nil]
  omega

theorem mem_hexEncode {bytes : Bytes} {digit : UInt8} (h : digit ∈ hexEncode bytes) :
    ∃ value < 16, digit = hexDigit value := by
  obtain ⟨byte, -, hdigit⟩ := List.mem_flatMap.mp h
  have hbyte := byte.toNat_lt
  rcases List.mem_pair.mp hdigit with rfl | rfl
  · exact ⟨_, by omega, rfl⟩
  · exact ⟨_, by omega, rfl⟩

theorem validInboundRequestID_generateUUIDv4 (source : Vector UInt8 16) :
    validInboundRequestID (generateUUIDv4 source) 36 = true := by
  have hhex : ∀ value < 16, validInboundRequestID [hexDigit value] 1 = true := by decide
  rw [validInboundRequestID, length_generateUUIDv4, if_neg (by omega), List.all_eq_true]
  intro digit hdigit
  have hcases : digit = 45 ∨ ∃ value < 16, digit = hexDigit value := by
    simp only [generateUUIDv4, List.mem_append, List.mem_singleton] at hdigit
    have hmem := fun bytes => @mem_hexEncode bytes digit
    tauto
  rcases hcases with rfl | ⟨value, hvalue, rfl⟩
  · rfl
  · simpa [validInboundRequestID] using hhex value hvalue

theorem validInboundRequestID_iff {value : Bytes} {limit : Int}
    (h : validInboundRequestID value limit = true) (maxLength : Int) :
    validInboundRequestID value maxLength = true ↔ value.length ≤ maxLength := by
  simp only [validInboundRequestID] at h ⊢
  split_ifs at h ⊢ <;> simp_all

/-- A hook that does not fail records a valid ID and puts it into the header. -/
theorem RequestIDPlugin.onRequest_records {plugin : RequestIDPlugin} {context recorded : Context}
    {request forwarded : ServerRequest} {result : RequestResult}
    (h : plugin.onRequest context request = (result, recorded, forwarded))
    (hresult : result.err = none) :
    forwarded.header = request.header.set plugin.headerName recorded.requestID ∧
      ∃ limit ≤ max plugin.maxLength 36,
        validInboundRequestID recorded.requestID limit = true := by
  simp only [onRequest] at h
  split at h
  on_goal 1 => split_ifs at h with hvalid
  · cases h
    exact ⟨rfl, plugin.maxLength, le_max_left _ _, hvalid⟩
  all_goals
    split at h <;> cases h
    · contradiction
    · exact ⟨rfl, 36, le_max_right _ _, validInboundRequestID_generateUUIDv4 _⟩

/-- The recorded ID is the only value of its header in the request that the hook hands on.
A request hook on the same header that accepts its length, run on that request, keeps it,
draws nothing and changes nothing; the response hook writes the same ID. -/
theorem request_id_kept (plugin next : RequestIDPlugin) (context recorded later : Context)
    (request forwarded : ServerRequest) (result : RequestResult) (response : Response)
    (h : plugin.onRequest context request = (result, recorded, forwarded))
    (hresult : result.err = none) (hname : next.headerName = plugin.headerName)
    (hlength : recorded.requestID.length ≤ next.maxLength) :
    recorded.requestID.length ≤ max plugin.maxLength 36 ∧
      forwarded.header.values plugin.headerName = [recorded.requestID] ∧
      (∃ same, next.onRequest later forwarded =
          (.go, { later with requestID := recorded.requestID }, same) ∧
        same.header.SameMap forwarded.header) ∧
      (plugin.onResponse recorded response).2.2.header.values plugin.headerName =
        [recorded.requestID] := by
  obtain ⟨hheader, limit, hlimit, hvalid⟩ := RequestIDPlugin.onRequest_records h hresult
  have hvalues : ∀ header : Header,
      (header.set plugin.headerName recorded.requestID).values plugin.headerName =
        [recorded.requestID] := by
    intro header
    rw [Header.values, Header.lookup_set, if_pos rfl, Option.getD_some]
  have hforwarded := hheader ▸ hvalues request.header
  have hbound := (validInboundRequestID_iff hvalid limit).mp hvalid
  refine ⟨hbound.trans hlimit, hforwarded, ?_, hvalues _⟩
  have hkept := (validInboundRequestID_iff hvalid next.maxLength).mpr hlength
  simp only [RequestIDPlugin.onRequest, hname, hforwarded, if_pos hkept]
  refine ⟨_, rfl, Header.sameMap_of_lookup fun key => ?_⟩
  simp only [Header.lookup_set, hheader]
  split_ifs <;> rfl

theorem request_id_kept_generated :
    let plugin : RequestIDPlugin := ⟨ascii "X-Request-Id", 36, fun _ => some (.replicate 16 7)⟩
    let request : ServerRequest := ⟨1, 1, [], [], [], false, .empty, 0, false⟩
    let recorded := (plugin.onRequest .attached request).2
    recorded.2.header.values plugin.headerName = [recorded.1.requestID] ∧
      (plugin.onRequest .attached recorded.2).2.1.draws = 0 := by
  intro plugin request recorded
  have hkept := request_id_kept plugin plugin .attached recorded.1 .attached request recorded.2 .go
    ⟨200, .empty, []⟩ rfl rfl rfl (by decide)
  obtain ⟨-, hvalues, ⟨same, hnext, -⟩, -⟩ := hkept
  exact ⟨hvalues, by rw [hnext]; rfl⟩

end GGateway.Plugin
