import GGateway.Text.Utf8

/-!
# JSON encoding

The part of `json.Marshal` that writes integers, strings, arrays of encoded
values and objects with fixed field names.  Strings are written with the HTML
escapes that `Marshal` turns on; a byte that is not valid UTF-8 becomes the
escape of the replacement rune, so the encoding is not injective.
-/

namespace GGateway.Text

def hexDigit (value : Nat) : UInt8 :=
  if value < 10 then UInt8.ofNat (48 + value) else UInt8.ofNat (87 + value)

/-- The encoding of one ASCII byte inside a JSON string. -/
def jsonAsciiByte (byte : UInt8) : Bytes :=
  if byte = 92 ∨ byte = 34 then [92, byte]
  else if byte = 8 then ascii "\\b"
  else if byte = 12 then ascii "\\f"
  else if byte = 10 then ascii "\\n"
  else if byte = 13 then ascii "\\r"
  else if byte = 9 then ascii "\\t"
  else if byte < 32 ∨ byte = 60 ∨ byte = 62 ∨ byte = 38 then
    ascii "\\u00" ++ [hexDigit (byte.toNat / 16), hexDigit (byte.toNat % 16)]
  else [byte]

/-- The body of a JSON string.  `pending` counts the bytes that still belong to
the rune before, which are copied when `verbatim` holds. -/
def jsonStringBody : Nat → Bool → Bytes → Bytes
  | _, _, [] => []
  | pending + 1, verbatim, byte :: rest =>
    if verbatim then byte :: jsonStringBody pending verbatim rest
    else jsonStringBody pending verbatim rest
  | 0, _, byte :: rest =>
    let (rune, width) := decodeRune byte rest
    if byte < 0x80 then jsonAsciiByte byte ++ jsonStringBody 0 true rest
    else if rune = runeError ∧ width = 1 then ascii "\\ufffd" ++ jsonStringBody 0 true rest
    else if rune = 0x2028 ∨ rune = 0x2029 then
      ascii "\\u202" ++ [hexDigit (rune % 16)] ++ jsonStringBody (width - 1) false rest
    else byte :: jsonStringBody (width - 1) true rest

def jsonString (s : Bytes) : Bytes :=
  [34] ++ jsonStringBody 0 true s ++ [34]

def jsonInt (value : Int) : Bytes :=
  ascii (toString value)

def jsonArray (values : List Bytes) : Bytes :=
  [91] ++ join values [44] ++ [93]

/-- An object of fields whose values are already encoded. -/
def jsonObject (fields : List (Bytes × Bytes)) : Bytes :=
  [123] ++ join (fields.map fun field => jsonString field.1 ++ [58] ++ field.2) [44] ++ [125]

example : jsonString (ascii "a<b\n") = ascii "\"a\\u003cb\\n\"" := by decide

end GGateway.Text
