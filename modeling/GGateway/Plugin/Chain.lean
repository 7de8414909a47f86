import GGateway.Upstream.Config

/-!
# Plugin chains

`internal/plugin/registry.go` and `chain.go`.

* A `Definition` compiles a configuration to hooks; `newRegistry` accepts definitions
  whose names and orders do not collide.
* `compileChain` lets the attachments of a route replace or remove those of its service,
  and compiles what is left.
* `runRequest` goes on to the next hook while hooks continue; `runResponse` stops at the
  first error.

A hook is a function on the request state and the message it may change.  Every read of the
random source is counted in the state, so that two reads may answer differently.
-/

namespace GGateway.Plugin

open Text Model Library Library.Checks
open GGateway.Upstream (decimal)

/-- A piece of an error text; a quoted piece is written with `%q`. -/
inductive Piece where
  | text (value : Bytes)
  | quoted (value : Bytes)
  deriving DecidableEq, Repr

abbrev Message := List Piece

/-- What hooks and the handler read and write of `requestctx.Context`. -/
structure Context where
  requestID : Bytes
  responseCode : Int
  responseError : Bytes
  draws : Nat
  deriving DecidableEq, Repr

/-- The state that `Attach` gives to a request. -/
def Context.attached : Context :=
  ⟨[], 0, [], 0⟩

/-- What hooks change of an `http.Response`. -/
structure Response where
  status : Int
  header : Header
  body : Bytes

structure ShortCircuitResponse where
  status : Int
  headers : Header
  body : Bytes
  code : Bytes

/-- `Action`; `continues` is `Continue`, and `other` is a value that names no action. -/
inductive Action where
  | continues
  | shortCircuit
  | other (value : UInt8)
  deriving DecidableEq, Repr

structure RequestResult where
  action : Action
  response : Option ShortCircuitResponse
  err : Option Message

/-- `RequestResult{Action: Continue}`. -/
def RequestResult.go : RequestResult :=
  ⟨.continues, none, none⟩

def RequestResult.failed (cause : Message) : RequestResult :=
  ⟨.continues, none, some cause⟩

abbrev RequestHook := Context → ServerRequest → RequestResult × Context × ServerRequest

abbrev ResponseHook := Context → Response → Option Message × Context × Response

structure CompiledPlugin where
  request : Option RequestHook
  response : Option ResponseHook
  scratchSlots : Int

structure Definition where
  name : Bytes
  version : Bytes
  requestOrder : Int
  responseOrder : Int
  compile : Option (Bytes → Except Message CompiledPlugin)

/-! ## Registries -/

/-- `Registry`: no two definitions have one name. -/
structure Registry where
  definitions : List Definition
  nodup : (definitions.map Definition.name).Nodup

variable (registry : Registry)

namespace Registry

def empty : Registry :=
  ⟨[], List.nodup_nil⟩

def add (definition : Definition)
    (fresh : definition.name ∉ registry.definitions.map Definition.name) : Registry where
  definitions := definition :: registry.definitions
  nodup := List.nodup_cons.mpr ⟨fresh, registry.nodup⟩

def find (registry : Registry) (name : Bytes) : Option Definition :=
  registry.definitions.find? fun definition => definition.name == name

end Registry

def checkMetadata (index : Nat) (definition : Definition) : Except Message Unit := do
  require (trimSpace definition.name ≠ [])
    [.text (ascii "plugin definition " ++ decimal index ++ ascii ": name must not be empty")]
  require (trimSpace definition.version ≠ [])
    [.text (ascii "plugin "), .quoted definition.name, .text (ascii ": version must not be empty")]
  require definition.compile.isSome
    [.text (ascii "plugin "), .quoted definition.name, .text (ascii ": compiler must not be nil")]

/-- No definition in the registry has the same order number. -/
def checkOrder (definition : Definition) (phase : Bytes)
    (order : Definition → Int) : Except Message Unit :=
  match registry.definitions.find? fun other => order other == order definition with
  | none => .ok ()
  | some previous =>
    .error [.text (ascii "plugin " ++ phase ++ ascii " order " ++
        ascii (toString (order definition)) ++ ascii " collides between "),
      .quoted previous.name, .text (ascii " and "), .quoted definition.name]

/-- The loop of `NewRegistry`. -/
def acceptDefinitions : Nat → Registry → List Definition → Except Message Registry
  | _, registry, [] => .ok registry
  | index, registry, definition :: rest => do
      checkMetadata index definition
      if fresh : definition.name ∉ registry.definitions.map Definition.name then
        checkOrder registry definition (ascii "request") Definition.requestOrder
        checkOrder registry definition (ascii "response") Definition.responseOrder
        acceptDefinitions (index + 1) (registry.add definition fresh) rest
      else .error [.text (ascii "duplicate plugin definition "), .quoted definition.name]

def newRegistry (definitions : List Definition) : Except Message Registry :=
  acceptDefinitions 0 .empty definitions

/-! ## Chains -/

structure CompiledEntry where
  name : Bytes
  definition : Definition
  plugin : CompiledPlugin

/-- `requestEntry` and `responseEntry`. -/
structure HookEntry (hook : Type) where
  name : Bytes
  order : Int
  hook : hook

structure Chain where
  names : List Bytes
  request : List (HookEntry RequestHook)
  response : List (HookEntry ResponseHook)
  scratchSlots : Int

/-- `sort.Slice` by an order number, then by name. -/
def orderBy {α : Type} (order : α → Int) (name : α → Bytes) (entries : List α) : List α :=
  entries.mergeSort fun left right =>
    decide (order left < order right ∨ order left = order right ∧ name left ≤ name right)

def buildChain (entries : List CompiledEntry) : Chain :=
  let entries := orderBy (fun entry => entry.definition.requestOrder) (·.name) entries
  { names := entries.map (·.name)
    request := entries.filterMap fun entry =>
      entry.plugin.request.map fun hook => ⟨entry.name, entry.definition.requestOrder, hook⟩
    response := orderBy (·.order) (·.name) (entries.filterMap fun entry =>
      entry.plugin.response.map fun hook => ⟨entry.name, entry.definition.responseOrder, hook⟩)
    scratchSlots := (entries.map fun entry => entry.plugin.scratchSlots).sum }

/-- `validateAttachmentScope`, with the position and the names seen so far. -/
def validateAttachmentScope (scope : Bytes) :
    Nat → List PluginAttachment → List Bytes → Except Message Unit
  | _, [], _ => .ok ()
  | index, attachment :: rest, seen => do
      require (trimSpace attachment.name ≠ [])
        [.text (scope ++ ascii " plugins[" ++ decimal index ++ ascii "]: name must not be empty")]
      require (!seen.contains attachment.name)
        [.text (scope ++ ascii " plugins: duplicate plugin name "), .quoted attachment.name]
      validateAttachmentScope scope (index + 1) rest (attachment.name :: seen)

/-- The map `effective` of `CompileChain`: a route's attachment replaces the service's of the
same name, or removes it when it is disabled. -/
def effectiveAttachments (service route : List PluginAttachment) :
    List (Bytes × PluginAttachment) :=
  let served := service.foldl (fun effective attachment =>
    if attachment.enabled then Assoc.upsert attachment.name (fun _ => attachment) effective
    else effective) []
  route.foldl (fun effective attachment =>
    if attachment.enabled then Assoc.upsert attachment.name (fun _ => attachment) effective
    else Assoc.erase attachment.name effective) served

/-- Compile the attachment of a name. -/
def compileEntry (effective : List (Bytes × PluginAttachment))
    (name : Bytes) : Except Message CompiledEntry := do
  let definition ← demand (registry.find name) [.text (ascii "unknown plugin "), .quoted name]
  let raw := ((effective.lookup name).map (·.rawConfig)).getD []
  -- A registry holds no definition without a compiler.
  let compile ← demand definition.compile
    [.text (ascii "plugin "), .quoted name, .text (ascii ": compiler must not be nil")]
  let compiled ← (compile raw).mapError fun cause =>
    [Piece.text (ascii "compile plugin "), .quoted name, .text (ascii ": ")] ++ cause
  require (0 ≤ compiled.scratchSlots) [.text (ascii "compile plugin "), .quoted name,
    .text (ascii ": scratch slots must not be negative")]
  pure ⟨name, definition, compiled⟩

/-- `CompileChain`. -/
def Registry.compileChain (service route : List PluginAttachment) :
    Except Message Chain := do
  validateAttachmentScope (ascii "service") 0 service []
  validateAttachmentScope (ascii "route") 0 route []
  let effective := effectiveAttachments service route
  let entries ← (sortStrings (effective.map Prod.fst)).mapM (compileEntry registry effective)
  pure (buildChain entries)

/-! ## Running hooks -/

def maxShortCircuitBodyBytes : Nat := 64 * 1024

def cloneAndValidateShortCircuit (response : Option ShortCircuitResponse) :
    Except Message ShortCircuitResponse := do
  let response ← demand response [.text (ascii "short-circuit response is required")]
  require (100 ≤ response.status ∧ response.status ≤ 599)
    [.text (ascii "short-circuit status " ++ ascii (toString response.status) ++
      ascii " is invalid")]
  require (response.body.length ≤ maxShortCircuitBodyBytes)
    [.text (ascii "short-circuit body is " ++ decimal response.body.length ++
      ascii " bytes, limit is " ++ decimal maxShortCircuitBodyBytes)]
  pure response

/-- An error of a hook, with the name of its plugin. -/
def phaseError (name phase : Bytes) (cause : Message) : Message :=
  [.text (ascii "plugin "), .quoted name, .text (ascii " " ++ phase ++ ascii " phase: ")] ++ cause

/-- What the chain makes of the result of a hook: `none` goes on to the next hook. -/
def settleHook (name : Bytes) (result : RequestResult) : Option RequestResult :=
  let failed := fun cause => some (RequestResult.failed (phaseError name (ascii "request") cause))
  match result.err, result.action with
  | some cause, _ => failed cause
  | none, .continues => none
  | none, .shortCircuit =>
    match cloneAndValidateShortCircuit result.response with
    | .error cause => failed cause
    | .ok response => some ⟨.shortCircuit, some response, none⟩
  | none, .other value => failed [.text (ascii "invalid action " ++ decimal value.toNat)]

def runRequestHooks : List (HookEntry RequestHook) → RequestHook
  | [], context, request => (.go, context, request)
  | entry :: rest, context, request =>
    let (result, context, request) := entry.hook context request
    match settleHook entry.name result with
    | some settled => (settled, context, request)
    | none => runRequestHooks rest context request

def Chain.runRequest (chain : Chain) : RequestHook :=
  runRequestHooks chain.request

end GGateway.Plugin
