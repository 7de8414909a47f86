import GGateway.Text.Bytes

/-!
# Numbers, addresses and escapes

The parsers of `strconv`, `net`, `net/netip`, `net/url` and `encoding/base64` that
decide whether an authority, a query or a nonce is well formed.  `validAddr` keeps only whether
`netip.ParseAddr` succeeds.
-/

namespace GGateway.Text

def isHexDigit (byte : UInt8) : Bool :=
  isDigit byte || decide (97 ≤ byte ∧ byte ≤ 102) || decide (65 ≤ byte ∧ byte ≤ 70)

def hexValue (byte : UInt8) : Nat :=
  if isDigit byte then byte.toNat - 48
  else if 97 ≤ byte then byte.toNat - 87
  else byte.toNat - 55

def decimalValue (digits : Bytes) : Nat :=
  digits.foldl (fun value digit => value * 10 + (digit.toNat - 48)) 0

/-- `strconv.Atoi` on a 64-bit platform: an optional sign, at least one digit
and no other byte, and a value that fits in `int`. -/
def atoi (s : Bytes) : Option Int :=
  let (negative, digits) :=
    match s with
    | 43 :: rest => (false, rest)
    | 45 :: rest => (true, rest)
    | _ => (false, s)
  if digits.isEmpty || !digits.all isDigit then none
  else
    let value : Int := if negative then -(decimalValue digits : Int) else decimalValue digits
    if -(2 ^ 63) ≤ value ∧ value < 2 ^ 63 then some value else none

/-- `net.SplitHostPort`, with `none` for an address error. -/
def splitHostPort (hostport : Bytes) : Option (Bytes × Bytes) :=
  match lastIndexByte hostport 58 with
  | none => none
  | some colon =>
    let port := hostport.drop (colon + 1)
    if hasPrefix hostport [91] then
      match indexByte hostport 93 with
      | none => none
      | some close =>
        if close + 1 ≠ colon then none
        else if (indexByte (hostport.drop 1) 91).isSome then none
        else if (indexByte (hostport.drop (close + 1)) 93).isSome then none
        else some (slice hostport 1 close, port)
    else
      let host := hostport.take colon
      if (indexByte host 58).isSome then none
      else if (indexByte hostport 91).isSome then none
      else if (indexByte hostport 93).isSome then none
      else some (host, port)

/-- `parseIPv4Fields`.  `fresh` holds at the start and right after a dot;
`position` counts the dots seen. -/
def ipv4Fields : Bytes → Bool → Nat → Nat → Nat → Bool
  | [], _, _, position, _ => decide (3 ≤ position)
  | byte :: rest, fresh, value, position, digits =>
    if isDigit byte then
      if digits = 1 ∧ value = 0 then false
      else if 255 < value * 10 + (byte.toNat - 48) then false
      else ipv4Fields rest false (value * 10 + (byte.toNat - 48)) position (digits + 1)
    else if byte = 46 then
      if fresh || rest.isEmpty || position == 3 then false
      else ipv4Fields rest true 0 (position + 1) 0
    else false

def validIPv4 (s : Bytes) : Bool :=
  ipv4Fields s true 0 0 0

/-- The checks of `parseIPv6` after its loop: the whole string was read, and a
`::` stands for at least one group exactly when the address is short. -/
def ipv6Finish (s : Bytes) (filled : Nat) (ellipsis : Bool) : Bool :=
  s.isEmpty && if filled < 16 then ellipsis else !ellipsis

/-- The loop of `parseIPv6`; the first argument counts the groups that still
fit, and `filled` the bytes written so far. -/
def ipv6Groups : Nat → Bytes → Nat → Bool → Bool
  | 0, s, filled, ellipsis => ipv6Finish s filled ellipsis
  | room + 1, s, filled, ellipsis =>
    let digits := s.takeWhile isHexDigit
    if digits.length = 0 ∨ 4 < digits.length then false
    else
      match s.drop digits.length with
      | [] => ipv6Finish [] (filled + 2) ellipsis
      | 46 :: _ =>
        if (!ellipsis && filled != 12) || 16 < filled + 4 then false
        else validIPv4 s && ipv6Finish [] (filled + 4) ellipsis
      | 58 :: [] => false
      | 58 :: 58 :: rest =>
        if ellipsis then false
        else if rest.isEmpty then ipv6Finish [] (filled + 2) true
        else ipv6Groups room rest (filled + 2) true
      | 58 :: rest => ipv6Groups room rest (filled + 2) ellipsis
      | _ => false

def validIPv6 (input : Bytes) : Bool :=
  let (s, zoned) :=
    match cut input 37 with
    | none => (input, true)
    | some (address, zone) => (address, !zone.isEmpty)
  zoned &&
    match s with
    | 58 :: 58 :: rest => rest.isEmpty || ipv6Groups 8 rest 0 true
    | _ => ipv6Groups 8 s 0 false

/-- Whether `netip.ParseAddr` accepts: the first dot, colon or percent sign
decides which grammar applies. -/
def validAddr (s : Bytes) : Bool :=
  match s.find? ([46, 58, 37].contains ·) with
  | some 46 => validIPv4 s
  | some 58 => validIPv6 s
  | _ => false

/-- `url.QueryUnescape`, with `none` for an escape error. -/
def queryUnescape : Bytes → Option Bytes
  | [] => some []
  | byte :: rest =>
    if byte = 37 then
      match rest with
      | high :: low :: rest2 =>
        if isHexDigit high && isHexDigit low then
          (queryUnescape rest2).map (UInt8.ofNat (hexValue high * 16 + hexValue low) :: ·)
        else none
      | _ => none
    else if byte = 43 then (queryUnescape rest).map (32 :: ·)
    else (queryUnescape rest).map (byte :: ·)

/-- The value of a digit of the standard base64 alphabet. -/
def base64Value (byte : UInt8) : Option Nat :=
  if 65 ≤ byte ∧ byte ≤ 90 then some (byte.toNat - 65)
  else if 97 ≤ byte ∧ byte ≤ 122 then some (byte.toNat - 71)
  else if isDigit byte then some (byte.toNat + 4)
  else if byte = 43 then some 62
  else if byte = 47 then some 63
  else none

/-- `decodeQuantum` over the whole text: four digits give three bytes, and the last
quantum may end in one or two padding characters.  Trailing bits are not checked. -/
def base64Quanta : Bytes → Option Bytes
  | [] => some []
  | [first, second, 61, 61] => do
      let high ← base64Value first
      let low ← base64Value second
      pure [UInt8.ofNat ((high * 64 + low) / 16)]
  | [first, second, third, 61] => do
      let high ← base64Value first
      let middle ← base64Value second
      let low ← base64Value third
      let value := (high * 64 + middle) * 64 + low
      pure [UInt8.ofNat (value / 1024), UInt8.ofNat (value / 4)]
  | first :: second :: third :: fourth :: rest => do
      let v1 ← base64Value first
      let v2 ← base64Value second
      let v3 ← base64Value third
      let v4 ← base64Value fourth
      let value := ((v1 * 64 + v2) * 64 + v3) * 64 + v4
      let others ← base64Quanta rest
      pure (UInt8.ofNat (value / 65536) :: UInt8.ofNat (value / 256) :: UInt8.ofNat value :: others)
  | _ => none

/-- `base64.StdEncoding.DecodeString`: line ends are skipped wherever they stand. -/
def base64Decode (s : Bytes) : Option Bytes :=
  base64Quanta (s.filter fun byte => byte != 10 && byte != 13)

example : base64Decode (ascii "Zm9vYg==") = some (ascii "foob") := by decide

def base64Digit (value : Nat) : UInt8 :=
  if value < 26 then UInt8.ofNat (value + 65)
  else if value < 52 then UInt8.ofNat (value + 71)
  else if value < 62 then UInt8.ofNat (value - 4)
  else if value = 62 then 43
  else 47

/-- `base64.StdEncoding.EncodeToString`. -/
def base64Encode : Bytes → Bytes
  | [] => []
  | [first] =>
    [base64Digit (first.toNat / 4), base64Digit (first.toNat % 4 * 16), 61, 61]
  | [first, second] =>
    [base64Digit (first.toNat / 4), base64Digit (first.toNat % 4 * 16 + second.toNat / 16),
      base64Digit (second.toNat % 16 * 4), 61]
  | first :: second :: third :: rest =>
    base64Digit (first.toNat / 4) :: base64Digit (first.toNat % 4 * 16 + second.toNat / 16) ::
      base64Digit (second.toNat % 16 * 4 + third.toNat / 64) ::
        base64Digit (third.toNat % 64) :: base64Encode rest

example : base64Encode (ascii "foob") = ascii "Zm9vYg==" := by decide
example : validAddr (ascii "2001:db8::10") = true := by decide
example : splitHostPort (ascii "[::1]:8443") = some (ascii "::1", ascii "8443") := by decide
example : queryUnescape (ascii "a%2") = none := by decide

end GGateway.Text
