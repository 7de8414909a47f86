import GGateway.Upstream.Balancer

/-!
# Hash keys of requests

`hashKeyExtractor.sum64` of `internal/upstream/hashkey.go`: the bytes that a
request feeds to the digest, component by component, and the fallback to the
remote address when no configured component is present.
-/

namespace GGateway.Upstream

open Text Model

/-- What `sum64` reads of a request. -/
structure HashInput where
  header : Header
  remoteAddr : Bytes

/-! ## Cookies -/

/-- `validCookieValue`, with `none` for an invalid value. -/
def validCookieValue (value : Bytes) : Option Bytes :=
  let unquoted :=
    if 2 ≤ value.length ∧ value.head? = some 34 ∧ value.getLast? = some 34 then
      slice value 1 (value.length - 1)
    else value
  let invalid := fun (character : UInt8) =>
    decide (character < 32) || decide (127 ≤ character) || character == 34 || character == 59 ||
      character == 92
  if unquoted.any invalid then none else some unquoted

/-- The value that one segment of a `Cookie` header gives the target. -/
def segmentValue (target segment : Bytes) : Option Bytes :=
  let trimmed := trimSpace segment
  match indexByte trimmed 61 with
  | none => none
  | some separator =>
    if 0 < separator ∧ trimmed.take separator = target then
      validCookieValue (trimmed.drop (separator + 1))
    else none

/-- `firstValidCookie`.  The loop leaves out a last segment that is empty; such a
segment has no value for any target. -/
def firstValidCookie (headers : List Bytes) (target : Bytes) : Option Bytes :=
  headers.findSome? fun header => (split header 59).findSome? (segmentValue target)

example : firstValidCookie [ascii "a=1; id=\"x\"; id=y"] (ascii "id") = some (ascii "x") := by
  decide +kernel

/-! ## Components -/

def hashString (value : Bytes) : Bytes :=
  uvarint value.length ++ value

variable (platform : Platform)

/-- `writeHashRemoteAddr`. -/
def hashRemoteAddr (remoteAddr : Bytes) : Bytes :=
  let host :=
    match splitHostPort remoteAddr with
    | some (host, _) => host
    | none => remoteAddr
  if validAddr host then hashString (platform.unmapAddr host) else hashString remoteAddr

def hashSourceTag : HashSourceType → UInt8
  | .header => 1
  | .cookie => 2
  | .remoteAddr => 3
  | .literal => 4
  | .other _ => 0

/-- The values of a source in a request, counted and written; `none` when the source
is absent from it. -/
def hashComponent (request : Option HashInput) (source : HashKeySource) :
    Option Bytes :=
  match source.type with
  | .header =>
    match request.bind fun input => input.header.lookup source.name with
    | none | some [] => none
    | some values => some (uvarint values.length ++ values.flatMap hashString)
  | .cookie =>
    let found := request.bind fun input =>
      firstValidCookie ((input.header.lookup (ascii "Cookie")).getD []) source.name
    found.map fun value => uvarint 1 ++ hashString value
  | .remoteAddr =>
    match request with
    | none => none
    | some input =>
      if input.remoteAddr = [] then none
      else some (uvarint 1 ++ hashRemoteAddr platform input.remoteAddr)
  | .literal => some (uvarint 1 ++ hashString source.value)
  | .other _ => none

/-- What one source writes; the switch has no case for an unknown kind. -/
def writeSource (request : Option HashInput) (source : HashKeySource) :
    Bytes :=
  hashSourceTag source.type ::
    match source.type, hashComponent platform request source with
    | .other _, _ => []
    | _, none => 0 :: uvarint 0
    | _, some component => 1 :: component

/-! ## The digest -/

/-- The bytes of the fallback key. -/
def fallbackBytes (request : Option HashInput) : Bytes :=
  uvarint 1 ++ [hashSourceTag .remoteAddr, 1] ++ uvarint 1 ++
    match request with
    | none => hashString []
    | some input => hashRemoteAddr platform input.remoteAddr

/-- `sum64`: the key, and whether it is the fallback. -/
def sum64 (sources : List HashKeySource) (request : Option HashInput) :
    UInt64 × Bool :=
  if sources.any fun source => (hashComponent platform request source).isSome then
    (platform.xxhash (uvarint sources.length ++ sources.flatMap (writeSource platform request)),
      false)
  else (platform.xxhash (fallbackBytes platform request), true)

end GGateway.Upstream
