import GGateway.Text.Net
import GGateway.Text.Utf8

/-!
# Path and host patterns

The pattern compiler of `internal/router/pattern.go`.  A path pattern is a list
of segments with a specificity; matching walks the request path from position
`1` and returns the byte spans of the captured parameters.  A host pattern is
exact or a wildcard for exactly one leading label.
-/

namespace GGateway.Router

open Text

/-- One path segment; the source keeps a `segmentKind` and a `text`, which is
the literal of a static segment and the name of a parameter or catch-all. -/
inductive PathSegment where
  | segmentStatic (text : Bytes)
  | segmentParameter (text : Bytes)
  | segmentPrefix
  | segmentCatchAll (text : Bytes)
  deriving DecidableEq, Repr

structure PathSpecificity where
  staticSegments : Nat
  kindRank : Nat
  segmentCount : Nat
  patternBytes : Nat
  deriving DecidableEq, Repr

structure CompiledPathPattern where
  raw : Bytes
  segments : List PathSegment
  specificity : PathSpecificity
  paramCount : Nat
  deriving DecidableEq, Repr

/-- A byte span of the request path captured by a parameter. -/
structure ParamSpan where
  name : Bytes
  start : Nat
  stop : Nat
  deriving DecidableEq, Repr

inductive SegmentError where
  | prefixNotFinal
  | catchAllNotFinal
  | invalidCatchAllName (name : Bytes)
  | invalidParameterName (name : Bytes)
  | mixedAsterisk
  | strayBraces
  deriving DecidableEq, Repr

inductive PathError where
  | notAbsolute (pattern : Bytes)
  | queryOrFragment (pattern : Bytes)
  | segment (pattern : Bytes) (index : Nat) (cause : SegmentError)
  | duplicateParameter (pattern name : Bytes)
  deriving DecidableEq, Repr

/-- The byte `/`. -/
def slash : UInt8 := 47

/-- The byte `.`. -/
def dot : UInt8 := 46

/-- A letter or underscore, then letters, underscores or digits. -/
def validParameterName : Bytes → Bool
  | [] => false
  | first :: rest =>
    (isLetter first || first == 95) &&
      rest.all fun byte => isLetter byte || byte == 95 || isDigit byte

/-- A segment wrapped in exactly one pair of braces. -/
def braced (raw opening : Bytes) : Bool :=
  hasPrefix raw opening && hasSuffix raw [125] && countByte raw 123 == 1 && countByte raw 125 == 1

def compilePathSegment (raw : Bytes) (final : Bool) : Except SegmentError PathSegment :=
  if raw = ascii "*" then
    if final then .ok .segmentPrefix else .error .prefixNotFinal
  else if braced raw [123, 42] then
    let name := slice raw 2 (raw.length - 1)
    if !final then .error .catchAllNotFinal
    else if !validParameterName name then .error (.invalidCatchAllName name)
    else .ok (.segmentCatchAll name)
  else if braced raw [123] then
    let name := slice raw 1 (raw.length - 1)
    if !validParameterName name then .error (.invalidParameterName name)
    else .ok (.segmentParameter name)
  else if containsAny raw [42] then .error .mixedAsterisk
  else if containsAny raw [123, 125] then .error .strayBraces
  else .ok (.segmentStatic raw)

/-- The segment loop of `compilePathPattern`; `names` is `parameterNames`. -/
def compilePathSegments (pattern : Bytes) :
    Nat → List Bytes → List Bytes → CompiledPathPattern → Except PathError CompiledPathPattern
  | _, _, [], compiled => .ok compiled
  | index, names, raw :: rest, compiled =>
    match compilePathSegment raw rest.isEmpty with
    | .error cause => .error (.segment pattern index cause)
    | .ok segment =>
      let appended := { compiled with segments := compiled.segments ++ [segment] }
      let specificity := compiled.specificity
      match segment with
      | .segmentStatic text =>
        let count := if text = [] then specificity.staticSegments
          else specificity.staticSegments + 1
        compilePathSegments pattern (index + 1) names rest
          { appended with specificity := { specificity with staticSegments := count } }
      | .segmentParameter name =>
        if names.contains name then .error (.duplicateParameter pattern name)
        else
          let rank := if 2 < specificity.kindRank then 2 else specificity.kindRank
          compilePathSegments pattern (index + 1) (name :: names) rest
            { appended with
              paramCount := compiled.paramCount + 1
              specificity := { specificity with kindRank := rank } }
      | .segmentCatchAll name =>
        if names.contains name then .error (.duplicateParameter pattern name)
        else
          compilePathSegments pattern (index + 1) (name :: names) rest
            { appended with
              paramCount := compiled.paramCount + 1
              specificity := { specificity with kindRank := 1 } }
      | .segmentPrefix =>
        compilePathSegments pattern (index + 1) names rest
          { appended with specificity := { specificity with kindRank := 1 } }

/-- The raw segments of a pattern; `/` has none. -/
def rawSegments (pattern : Bytes) : List Bytes :=
  if pattern = [slash] then [] else split (pattern.drop 1) slash

def compilePathPattern (pattern : Bytes) : Except PathError CompiledPathPattern :=
  if !hasPrefix pattern [slash] then .error (.notAbsolute pattern)
  else if containsAny pattern (ascii "?#") then .error (.queryOrFragment pattern)
  else
    compilePathSegments pattern 0 [] (rawSegments pattern)
      { raw := pattern
        segments := []
        specificity :=
          { staticSegments := 0
            kindRank := 3
            segmentCount := (rawSegments pattern).length
            patternBytes := pattern.length }
        paramCount := 0 }

/-- The end of the path segment that starts at `position`: the next slash or
the end of the path. -/
def segmentEnd (path : Bytes) (position : Nat) : Nat :=
  match indexByte (path.drop position) slash with
  | some offset => position + offset
  | none => path.length

/-- What the loop body of `compiledPathPattern.match` does at one segment, up to
the test for the final one. -/
inductive SegmentOutcome where
  | accepted (params : List ParamSpan)
  | rejected
  | consumed (stop : Nat) (params : List ParamSpan)
  deriving DecidableEq, Repr

def matchSegment (path : Bytes) (segment : PathSegment) (position : Nat)
    (params : List ParamSpan) : SegmentOutcome :=
  if path.length < position then .rejected
  else
    match segment with
    | .segmentPrefix => .accepted params
    | .segmentCatchAll name => .accepted (params ++ [⟨name, position, path.length⟩])
    | .segmentStatic text =>
      if slice path position (segmentEnd path position) = text then
        .consumed (segmentEnd path position) params
      else .rejected
    | .segmentParameter name =>
      if segmentEnd path position = position then .rejected
      else
        .consumed (segmentEnd path position)
          (params ++ [⟨name, position, segmentEnd path position⟩])

/-- The loop of `compiledPathPattern.match`, with `none` for a mismatch.  The
final segment must end the path, any other must be followed by a slash. -/
def matchSegments (path : Bytes) : List PathSegment → Nat → List ParamSpan → Option (List ParamSpan)
  | [], _, _ => none
  | segment :: rest, position, params =>
    match matchSegment path segment position params with
    | .accepted result => some result
    | .rejected => none
    | .consumed stop collected =>
      if rest.isEmpty then if stop = path.length then some collected else none
      else if stop = path.length then none
      else matchSegments path rest (stop + 1) collected

/-- `compiledPathPattern.match`. -/
def CompiledPathPattern.match (pattern : CompiledPathPattern) (path : Bytes) :
    Option (List ParamSpan) :=
  if !hasPrefix path [slash] then none
  else if pattern.segments.isEmpty then if path = [slash] then some [] else none
  else matchSegments path pattern.segments 1 []

/-! ## Hosts -/

inductive HostPatternKind where
  | hostPatternExact
  | hostPatternWildcard
  deriving DecidableEq, Repr

structure HostSpecificity where
  kindRank : Nat
  labels : Nat
  deriving DecidableEq, Repr

structure CompiledHostPattern where
  raw : Bytes
  kind : HostPatternKind
  value : Bytes
  specificity : HostSpecificity
  deriving DecidableEq, Repr

inductive HostError where
  | emptyOrSpaced
  | malformed (authority : Bytes)
  | malformedBracketed (authority : Bytes)
  | malformedPort (authority : Bytes)
  | emptyLabel (authority : Bytes)
  deriving DecidableEq, Repr

/-- The host part of an authority, before it is lowercased. -/
def splitAuthority (authority : Bytes) : Except HostError Bytes :=
  let colonCount := countByte authority 58
  let bracketed := hasPrefix authority [91]
  if 1 < colonCount && !bracketed then
    if validAddr authority then .ok authority else .error (.malformed authority)
  else if bracketed || colonCount == 1 then
    match splitHostPort authority with
    | none => .error (.malformed authority)
    | some (parsedHost, port) =>
      if bracketed && !validAddr parsedHost then .error (.malformedBracketed authority)
      else
        match atoi port with
        | none => .error (.malformedPort authority)
        | some number =>
          if number < 0 ∨ 65535 < number then .error (.malformedPort authority)
          else .ok parsedHost
  else .ok authority

def normalizeRequestHost (tables : UnicodeTables) (authority : Bytes) : Except HostError Bytes :=
  if authority = [] ∨ trimSpace authority ≠ authority then .error .emptyOrSpaced
  else
    match splitAuthority authority with
    | .error cause => .error cause
    | .ok parsed =>
      let lowered := toLower tables parsed
      let host := if hasSuffix lowered [dot] then lowered.dropLast else lowered
      if host = [] ∨ hasSuffix host [dot] then .error (.emptyLabel authority)
      else .ok host

def isASCIIAlphaNumeric (byte : UInt8) : Bool :=
  isLetter byte || isDigit byte

/-- One DNS label: `1` to `63` bytes, alphanumeric at both ends, hyphens only
inside. -/
def validDNSLabel (label : Bytes) : Bool :=
  decide (0 < label.length ∧ label.length ≤ 63) &&
    label.head?.all isASCIIAlphaNumeric && label.getLast?.all isASCIIAlphaNumeric &&
    (slice label 1 (label.length - 1)).all fun byte => isASCIIAlphaNumeric byte || byte == 45

def validDNSName (host : Bytes) : Bool :=
  decide (0 < host.length ∧ host.length ≤ 253) && (split host dot).all validDNSLabel

inductive HostPatternError where
  | wildcard (pattern : Bytes) (cause : HostError)
  | wildcardLabels (pattern : Bytes)
  | exact (pattern : Bytes) (cause : HostError)
  | notDNSName (pattern : Bytes)
  deriving DecidableEq, Repr

def compileHostPattern (tables : UnicodeTables) (pattern : Bytes) :
    Except HostPatternError CompiledHostPattern :=
  if hasPrefix pattern (ascii "*.") then
    match normalizeRequestHost tables (pattern.drop 2) with
    | .error cause => .error (.wildcard pattern cause)
    | .ok suffix =>
      if !validDNSName suffix || countByte suffix dot < 1 then .error (.wildcardLabels pattern)
      else
        .ok
          { raw := pattern
            kind := .hostPatternWildcard
            value := suffix
            specificity := { kindRank := 1, labels := countByte suffix dot + 1 } }
  else
    match normalizeRequestHost tables pattern with
    | .error cause => .error (.exact pattern cause)
    | .ok host =>
      if !validDNSName host then .error (.notDNSName pattern)
      else
        .ok
          { raw := pattern
            kind := .hostPatternExact
            value := host
            specificity := { kindRank := 2, labels := countByte host dot + 1 } }

/-- `compiledHostPattern.match`.  `len(host) - len(p.value)` may be negative in
the source, which its first guard rejects. -/
def CompiledHostPattern.match (pattern : CompiledHostPattern) (host : Bytes) : Bool :=
  match pattern.kind with
  | .hostPatternExact => host == pattern.value
  | .hostPatternWildcard =>
    let suffixStart : Int := host.length - pattern.value.length
    if suffixStart ≤ 1 || (host.length : Int) < suffixStart ||
        host.drop suffixStart.toNat != pattern.value ||
        host[suffixStart.toNat - 1]? != some dot then false
    else !containsAny (host.take (suffixStart.toNat - 1)) [dot]

end GGateway.Router
