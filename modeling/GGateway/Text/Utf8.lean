import GGateway.Text.Bytes

/-!
# Runes, case mapping and white space

`strings.ToLower`, `strings.ToUpper`, `strings.EqualFold` and
`strings.TrimSpace` read a string as a sequence of runes.  The decoder below is
`utf8.DecodeRune`: an invalid byte yields the replacement rune and is one byte
wide.  The case tables of the `unicode` package are data, so they enter as the
parameter `UnicodeTables`; only their ASCII part is written out.
-/

namespace GGateway.Text

/-- `utf8.RuneError`. -/
def runeError : Nat := 0xFFFD

def isContinuation (byte : UInt8) : Bool :=
  decide (0x80 ≤ byte ∧ byte ≤ 0xBF)

/-- The second bytes accepted after a leading byte of a longer encoding. -/
def secondByteRange (lead : UInt8) : UInt8 × UInt8 :=
  if lead = 0xE0 then (0xA0, 0xBF)
  else if lead = 0xED then (0x80, 0x9F)
  else if lead = 0xF0 then (0x90, 0xBF)
  else if lead = 0xF4 then (0x80, 0x8F)
  else (0x80, 0xBF)

def acceptsSecond (lead second : UInt8) : Bool :=
  decide ((secondByteRange lead).1 ≤ second ∧ second ≤ (secondByteRange lead).2)

/-- `utf8.DecodeRuneInString` on a non-empty string: the rune and its width. -/
def decodeRune (b0 : UInt8) (rest : Bytes) : Nat × Nat :=
  if b0 < 0x80 then (b0.toNat, 1)
  else
    match rest with
    | b1 :: b2 :: b3 :: _ =>
      if 0xC2 ≤ b0 ∧ b0 ≤ 0xDF ∧ isContinuation b1 then two b0 b1
      else if 0xE0 ≤ b0 ∧ b0 ≤ 0xEF ∧ acceptsSecond b0 b1 ∧ isContinuation b2 then
        three b0 b1 b2
      else if 0xF0 ≤ b0 ∧ b0 ≤ 0xF4 ∧ acceptsSecond b0 b1 ∧ isContinuation b2 ∧
          isContinuation b3 then
        ((b0.toNat - 0xF0) * 262144 + (b1.toNat - 0x80) * 4096 +
          (b2.toNat - 0x80) * 64 + (b3.toNat - 0x80), 4)
      else (runeError, 1)
    | [b1, b2] =>
      if 0xC2 ≤ b0 ∧ b0 ≤ 0xDF ∧ isContinuation b1 then two b0 b1
      else if 0xE0 ≤ b0 ∧ b0 ≤ 0xEF ∧ acceptsSecond b0 b1 ∧ isContinuation b2 then
        three b0 b1 b2
      else (runeError, 1)
    | [b1] =>
      if 0xC2 ≤ b0 ∧ b0 ≤ 0xDF ∧ isContinuation b1 then two b0 b1
      else (runeError, 1)
    | [] => (runeError, 1)
where
  two (b0 b1 : UInt8) : Nat × Nat :=
    ((b0.toNat - 0xC0) * 64 + (b1.toNat - 0x80), 2)
  three (b0 b1 b2 : UInt8) : Nat × Nat :=
    ((b0.toNat - 0xE0) * 4096 + (b1.toNat - 0x80) * 64 + (b2.toNat - 0x80), 3)

/-- The runes from a position on; the first argument counts the bytes that
still belong to the rune before it. -/
def decodeFrom : Nat → Bytes → List Nat
  | _, [] => []
  | pending + 1, _ :: rest => decodeFrom pending rest
  | 0, b0 :: rest =>
    (decodeRune b0 rest).1 :: decodeFrom ((decodeRune b0 rest).2 - 1) rest

/-- The runes of a string, as a `range` loop produces them. -/
def decodeRunes (s : Bytes) : List Nat :=
  decodeFrom 0 s

/-- `utf8.AppendRune`: surrogates and values beyond `utf8.MaxRune` are written
as the replacement rune. -/
def encodeRune (rune : Nat) : Bytes :=
  if rune < 0x80 then [UInt8.ofNat rune]
  else if rune < 0x800 then
    [UInt8.ofNat (0xC0 + rune / 64), UInt8.ofNat (0x80 + rune % 64)]
  else if (0xD800 ≤ rune ∧ rune ≤ 0xDFFF) ∨ 0x10FFFF < rune then
    [0xEF, 0xBF, 0xBD]
  else if rune < 0x10000 then
    [UInt8.ofNat (0xE0 + rune / 4096), UInt8.ofNat (0x80 + rune / 64 % 64),
      UInt8.ofNat (0x80 + rune % 64)]
  else
    [UInt8.ofNat (0xF0 + rune / 262144), UInt8.ofNat (0x80 + rune / 4096 % 64),
      UInt8.ofNat (0x80 + rune / 64 % 64), UInt8.ofNat (0x80 + rune % 64)]

/-- The non-ASCII part of the case tables of the `unicode` package. -/
structure UnicodeTables where
  toLower : Nat → Nat
  toUpper : Nat → Nat
  equalFold : Nat → Nat → Bool

namespace UnicodeTables

/-- Case tables that leave every rune outside ASCII alone. -/
def asciiOnly : UnicodeTables :=
  ⟨id, id, fun _ _ => false⟩

variable (tables : UnicodeTables)

/-- `unicode.ToLower`. -/
def lowerRune (rune : Nat) : Nat :=
  if rune < 0x80 then if 65 ≤ rune ∧ rune ≤ 90 then rune + 32 else rune
  else tables.toLower rune

/-- `unicode.ToUpper`. -/
def upperRune (rune : Nat) : Nat :=
  if rune < 0x80 then if 97 ≤ rune ∧ rune ≤ 122 then rune - 32 else rune
  else tables.toUpper rune

/-- One step of `strings.EqualFold`. -/
def equalFoldRune (left right : Nat) : Bool :=
  if left < 0x80 ∧ right < 0x80 then
    tables.lowerRune left == tables.lowerRune right
  else
    left == right || tables.equalFold left right

end UnicodeTables

/-- `strings.ToLower`. -/
def toLower (tables : UnicodeTables) (s : Bytes) : Bytes :=
  (decodeRunes s).flatMap fun rune => encodeRune (tables.lowerRune rune)

/-- `strings.ToUpper`. -/
def toUpper (tables : UnicodeTables) (s : Bytes) : Bytes :=
  (decodeRunes s).flatMap fun rune => encodeRune (tables.upperRune rune)

/-- `strings.EqualFold`. -/
def equalFold (tables : UnicodeTables) (left right : Bytes) : Bool :=
  (decodeRunes left).length == (decodeRunes right).length &&
    ((decodeRunes left).zip (decodeRunes right)).all fun pair =>
      tables.equalFoldRune pair.1 pair.2

def isSpace1 (b0 : UInt8) : Bool :=
  decide ((9 ≤ b0 ∧ b0 ≤ 13) ∨ b0 = 32)

/-- The two-byte encodings of `unicode.IsSpace` runes: U+0085 and U+00A0. -/
def isSpace2 (b0 b1 : UInt8) : Bool :=
  decide (b0 = 0xC2 ∧ (b1 = 0x85 ∨ b1 = 0xA0))

/-- The three-byte encodings of `unicode.IsSpace` runes: U+1680,
U+2000 to U+200A, U+2028, U+2029, U+202F, U+205F and U+3000. -/
def isSpace3 (b0 b1 b2 : UInt8) : Bool :=
  decide ((b0 = 0xE1 ∧ b1 = 0x9A ∧ b2 = 0x80) ∨
    (b0 = 0xE2 ∧ b1 = 0x80 ∧
      ((0x80 ≤ b2 ∧ b2 ≤ 0x8A) ∨ b2 = 0xA8 ∨ b2 = 0xA9 ∨ b2 = 0xAF)) ∨
    (b0 = 0xE2 ∧ b1 = 0x81 ∧ b2 = 0x9F) ∨
    (b0 = 0xE3 ∧ b1 = 0x80 ∧ b2 = 0x80))

/-- The width of the white-space rune a string starts with, or zero. -/
def leadingSpaceWidth : Bytes → Nat
  | b0 :: b1 :: b2 :: _ =>
    if isSpace1 b0 then 1 else if isSpace2 b0 b1 then 2
    else if isSpace3 b0 b1 b2 then 3 else 0
  | [b0, b1] => if isSpace1 b0 then 1 else if isSpace2 b0 b1 then 2 else 0
  | [b0] => if isSpace1 b0 then 1 else 0
  | [] => 0

/-- The width of the white-space rune a reversed string starts with, or zero. -/
def trailingSpaceWidth : Bytes → Nat
  | b0 :: b1 :: b2 :: _ =>
    if isSpace1 b0 then 1 else if isSpace2 b1 b0 then 2
    else if isSpace3 b2 b1 b0 then 3 else 0
  | [b0, b1] => if isSpace1 b0 then 1 else if isSpace2 b1 b0 then 2 else 0
  | [b0] => if isSpace1 b0 then 1 else 0
  | [] => 0

/-- Drop white-space runes as long as `width` sees one; the first argument
counts the bytes that still belong to the rune being dropped. -/
def dropSpace (width : Bytes → Nat) : Nat → Bytes → Bytes
  | _, [] => []
  | pending + 1, _ :: rest => dropSpace width pending rest
  | 0, b0 :: rest =>
    match width (b0 :: rest) with
    | 0 => b0 :: rest
    | pending + 1 => dropSpace width pending rest

/-- `strings.TrimSpace`. -/
def trimSpace (s : Bytes) : Bytes :=
  (dropSpace trailingSpaceWidth 0 (dropSpace leadingSpaceWidth 0 s).reverse).reverse

example : trimSpace (ascii " \tX-Trace\n") = ascii "X-Trace" := by decide

end GGateway.Text
