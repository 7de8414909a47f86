import Mathlib.Data.List.Lex
import Mathlib.Tactic

/-!
# Byte strings

A Go string is an arbitrary finite sequence of bytes: a request path, a raw
query or a host authority need not be valid UTF-8, and `len`, slicing and `<`
all work on bytes.  This module fixes that representation and the part of the
`strings` package that looks at single bytes only.  Nothing here mentions the
gateway.
-/

namespace GGateway.Text

/-- A Go string. -/
abbrev Bytes := List UInt8

/-- The bytes of an ASCII literal. -/
def ascii (literal : String) : Bytes :=
  literal.toList.map fun character => UInt8.ofNat character.toNat

/-- Bytes are ordered as unsigned numbers; Go compares strings by the
lexicographic order this induces. -/
instance byteOrder : LinearOrder UInt8 where
  le_refl := UInt8.le_refl
  le_trans _ _ _ := UInt8.le_trans
  le_antisymm _ _ := UInt8.le_antisymm
  le_total := UInt8.le_total
  lt_iff_le_not_ge left right := by
    simp only [UInt8.lt_iff_toNat_lt, UInt8.le_iff_toNat_le]
    omega
  toDecidableLE := inferInstance

instance bytesLawful : LawfulBEq Bytes := inferInstance

instance bytesTrans : IsTrans Bytes (· ≤ ·) := inferInstance

instance bytesAntisymm : Std.Antisymm fun left right : Bytes => left ≤ right := inferInstance

instance bytesTotal : Std.Total fun left right : Bytes => left ≤ right := inferInstance

variable (s : Bytes)

/-- `s[start:stop]`. -/
def slice (start stop : Nat) : Bytes :=
  (s.take stop).drop start

/-- `strings.IndexByte`, with `none` for `-1`. -/
def indexByte (byte : UInt8) : Option Nat :=
  s.findIdx? (· == byte)

/-- `strings.LastIndexByte`, with `none` for `-1`. -/
def lastIndexByte (byte : UInt8) : Option Nat :=
  (indexByte s.reverse byte).map fun offset => s.length - 1 - offset

/-- `strings.Split` for a separator of one byte. -/
def split (separator : UInt8) : List Bytes :=
  s.splitOn separator

/-- `strings.Cut` for a separator of one byte, with `none` when it is absent. -/
def cut (separator : UInt8) : Option (Bytes × Bytes) :=
  (indexByte s separator).map fun offset => (s.take offset, s.drop (offset + 1))

/-- `strings.Join`. -/
def join (values : List Bytes) (separator : Bytes) : Bytes :=
  separator.intercalate values

/-- `strings.HasPrefix`. -/
def hasPrefix (s start : Bytes) : Bool :=
  start.isPrefixOf s

/-- `strings.HasSuffix`. -/
def hasSuffix (s ending : Bytes) : Bool :=
  ending.isSuffixOf s

/-- `strings.Count` for a pattern of one byte. -/
def countByte (byte : UInt8) : Nat :=
  s.count byte

/-- `strings.ContainsAny` for a set of ASCII bytes. -/
def containsAny (s characters : Bytes) : Bool :=
  s.any (characters.contains ·)

/-- Merge sort by a total and transitive relation sorts. -/
theorem pairwise_mergeSort_of_total {α : Type*} (below : α → α → Prop) [DecidableRel below]
    (htrans : ∀ a b c, below a b → below b c → below a c)
    (htotal : ∀ a b, below a b ∨ below b a) (values : List α) :
    (values.mergeSort fun left right => decide (below left right)).Pairwise below := by
  have hsorted := List.pairwise_mergeSort
    (fun a b c h1 h2 => decide_eq_true
      (htrans a b c (of_decide_eq_true h1) (of_decide_eq_true h2)))
    (fun a b => by simpa using htotal a b) values
  exact hsorted.imp of_decide_eq_true

/-- `sort.Strings`. -/
def sortStrings (values : List Bytes) : List Bytes :=
  values.mergeSort (fun left right => decide (left ≤ right))

def isLowerLetter (byte : UInt8) : Bool :=
  decide (97 ≤ byte ∧ byte ≤ 122)

def isUpperLetter (byte : UInt8) : Bool :=
  decide (65 ≤ byte ∧ byte ≤ 90)

def isDigit (byte : UInt8) : Bool :=
  decide (48 ≤ byte ∧ byte ≤ 57)

def isLetter (byte : UInt8) : Bool :=
  isLowerLetter byte || isUpperLetter byte

/-- The separators of the HTTP token grammar. -/
def tokenSeparators : Bytes :=
  ascii "()<>@,;:\\\"/[]?=\x7b\x7d \t"

/-- One byte of an HTTP token: ASCII, not a control character and not a
separator.  A byte above `127` starts a rune above `unicode.MaxASCII`, so a
loop over runes rejects it as well. -/
def isTokenByte (byte : UInt8) : Bool :=
  decide (32 ≤ byte ∧ byte < 127) && !tokenSeparators.contains byte

/-- An HTTP token: a non-empty string of token bytes. -/
def validToken (value : Bytes) : Bool :=
  !value.isEmpty && value.all isTokenByte

variable {s : Bytes} {byte : UInt8}

theorem mem_of_getElem?_indexByte {offset : Nat} (h : indexByte s byte = some offset) :
    offset < s.length ∧ s[offset]? = some byte ∧
      ∀ earlier, earlier < offset → s[earlier]? ≠ some byte := by
  obtain ⟨hlt, hat, hbefore⟩ := List.findIdx?_eq_some_iff_getElem.mp h
  refine ⟨hlt, ?_, ?_⟩
  · rw [List.getElem?_eq_getElem hlt]
    exact congrArg some (by simpa using hat)
  · intro earlier hearlier hcontra
    have hlt' : earlier < s.length := hearlier.trans hlt
    rw [List.getElem?_eq_getElem hlt'] at hcontra
    have hne := hbefore earlier hearlier
    simp at hne
    exact hne (Option.some.inj hcontra)

/-- Where `strings.IndexByte` cuts a string. -/
theorem exists_of_indexByte {offset : Nat} (h : indexByte s byte = some offset) :
    ∃ before after, s = before ++ byte :: after ∧ before.length = offset ∧ byte ∉ before := by
  induction s generalizing offset with
  | nil => exact nomatch h
  | cons head rest ih =>
    rw [indexByte, List.findIdx?_cons] at h
    by_cases hhead : head = byte
    · rw [if_pos (beq_iff_eq.mpr hhead)] at h
      cases h
      exact ⟨[], rest, congrArg (· :: rest) hhead, rfl, List.not_mem_nil⟩
    rw [if_neg (by simpa using hhead), Option.map_eq_some_iff] at h
    obtain ⟨earlier, hearlier, rfl⟩ := h
    obtain ⟨before, after, rfl, hlength, hmem⟩ := ih hearlier
    refine ⟨head :: before, after, rfl, congrArg (· + 1) hlength, ?_⟩
    rw [List.mem_cons, not_or]
    exact ⟨fun hsame => hhead hsame.symm, hmem⟩

theorem indexByte_eq_none : indexByte s byte = none ↔ byte ∉ s := by
  rw [indexByte, List.findIdx?_eq_none_iff]
  constructor
  · intro h hmem
    exact absurd (h byte hmem) (by simp)
  · intro h other hother
    rw [beq_eq_false_iff_ne]
    exact fun hsame => h (hsame ▸ hother)

theorem indexByte_append_cons {before : Bytes} (h : byte ∉ before) (after : Bytes) :
    indexByte (before ++ byte :: after) byte = some before.length := by
  cases hindex : indexByte (before ++ byte :: after) byte with
  | none =>
    exact absurd (List.mem_append_right before List.mem_cons_self) (indexByte_eq_none.mp hindex)
  | some offset =>
    obtain ⟨hlt, hat, hbefore⟩ := mem_of_getElem?_indexByte hindex
    have hhere : (before ++ byte :: after)[before.length]? = some byte := by simp
    have hle : offset ≤ before.length := by
      by_contra hlater
      exact hbefore before.length (by omega) hhere
    have hge : before.length ≤ offset := by
      by_contra hearlier
      rw [List.getElem?_append_left (by omega)] at hat
      exact h (List.mem_of_getElem? hat)
    rw [Nat.le_antisymm hle hge]

theorem cut_eq_none : cut s byte = none ↔ byte ∉ s := by
  rw [cut, Option.map_eq_none_iff, indexByte_eq_none]

theorem cut_append_cons {before : Bytes} (h : byte ∉ before) (after : Bytes) :
    cut (before ++ byte :: after) byte = some (before, after) := by
  rw [cut, indexByte_append_cons h]
  simp

theorem cut_eq_some {before after : Bytes} :
    cut s byte = some (before, after) ↔ s = before ++ byte :: after ∧ byte ∉ before := by
  constructor
  · intro h
    obtain ⟨offset, hindex, _⟩ := Option.map_eq_some_iff.mp h
    obtain ⟨start, rest, rfl, -, hmem⟩ := exists_of_indexByte hindex
    rw [cut_append_cons hmem] at h
    cases h
    exact ⟨rfl, hmem⟩
  · rintro ⟨rfl, hmem⟩
    exact cut_append_cons hmem after

theorem exists_of_lastIndexByte {offset : Nat} (h : lastIndexByte s byte = some offset) :
    ∃ before after, s = before ++ byte :: after ∧ before.length = offset ∧ byte ∉ after := by
  obtain ⟨fromEnd, hindex, hoffset⟩ := Option.map_eq_some_iff.mp h
  obtain ⟨after, before, hreverse, hlength, hmem⟩ := exists_of_indexByte hindex
  have hs : s = before.reverse ++ byte :: after.reverse := by
    rw [← s.reverse_reverse, hreverse]
    simp
  refine ⟨before.reverse, after.reverse, hs, ?_, by simpa using hmem⟩
  have hsize := congrArg List.length hs
  simp only [List.length_append, List.length_reverse, List.length_cons] at hsize ⊢
  omega

theorem hasPrefix_singleton : hasPrefix s [byte] = true ↔ s.head? = some byte := by
  cases s with
  | nil => simp [hasPrefix]
  | cons head rest =>
    simp only [hasPrefix, List.isPrefixOf, Bool.and_true, beq_iff_eq, List.head?_cons,
      Option.some.injEq]
    exact eq_comm

theorem hasSuffix_singleton : hasSuffix s [byte] = true ↔ s.getLast? = some byte := by
  rw [hasSuffix, List.isSuffixOf_iff_suffix, List.getLast?_eq_some_iff]
  exact ⟨fun ⟨before, h⟩ => ⟨before, h.symm⟩, fun ⟨before, h⟩ => ⟨before, h.symm⟩⟩

theorem join_cons {values : List Bytes} (h : values ≠ []) (value separator : Bytes) :
    join (value :: values) separator = value ++ separator ++ join values separator := by
  obtain ⟨second, others, rfl⟩ := List.exists_cons_of_ne_nil h
  rw [join, List.intercalate_cons_cons, join]

theorem join_singleton (value separator : Bytes) : join [value] separator = value :=
  List.intercalate_singleton ..

end GGateway.Text
