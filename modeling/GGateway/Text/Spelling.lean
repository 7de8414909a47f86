import GGateway.Text.Header
import GGateway.Text.Net
import GGateway.Text.Utf8

/-!
# Spellings of names and addresses

Letter case, trailing dots and repetitions are spellings of one name.  This module
says which of them the functions on texts see: case mapping of ASCII texts, header
keys, the labels of a host name, and dotted addresses.
-/

namespace GGateway.Text

/-- A statement about every byte is checked on its two hexadecimal digits. -/
theorem forall_byte {P : UInt8 → Prop}
    (h : ∀ high low : Fin 16, P (UInt8.ofNat (16 * high + low))) (byte : UInt8) : P byte := by
  have hbound := byte.toNat_lt
  have hbyte := h ⟨byte.toNat / 16, by omega⟩ ⟨byte.toNat % 16, by omega⟩
  rwa [Nat.div_add_mod, UInt8.ofNat_toNat] at hbyte

/-! ## Letter case -/

variable (byte : UInt8)

def lowerByte : UInt8 :=
  if isUpperLetter byte then byte + 32 else byte

def upperByte : UInt8 :=
  if isLowerLetter byte then byte - 32 else byte

theorem lowerByte_lt_iff : lowerByte byte < 128 ↔ byte < 128 := by
  revert byte
  exact forall_byte (by decide)

theorem isTokenByte_lowerByte : isTokenByte (lowerByte byte) = isTokenByte byte := by
  revert byte
  exact forall_byte (by decide)

theorem lowerByte_eq_self_of_label
    (h : (isLowerLetter byte || isDigit byte || byte == 45) = true ∨ byte = 46) :
    lowerByte byte = byte ∧ byte < 128 ∧ byte ≠ 58 ∧ byte ≠ 37 := by
  revert h
  revert byte
  exact forall_byte (by decide)

variable {s : Bytes} {header : Header}

theorem decodeRunes_ascii (h : ∀ byte ∈ s, byte < 128) : decodeRunes s = s.map UInt8.toNat := by
  unfold decodeRunes
  induction s with
  | nil => rfl
  | cons first rest ih =>
    obtain ⟨hfirst, hrest⟩ := List.forall_mem_cons.mp h
    have hrune : decodeRune first rest = (first.toNat, 1) := if_pos hfirst
    rw [decodeFrom, hrune, List.map_cons, ← ih hrest]
    rfl

theorem encodeRune_ascii {rune : Nat} (h : rune < 128) : encodeRune rune = [UInt8.ofNat rune] :=
  if_pos h

/-- Every byte of a longer encoding has its high bit set. -/
theorem le_of_mem_encodeRune {rune : Nat} (h : 128 ≤ rune) {byte : UInt8}
    (hbyte : byte ∈ encodeRune rune) : 128 ≤ byte := by
  unfold encodeRune at hbyte
  rw [if_neg (by omega)] at hbyte
  rw [UInt8.le_iff_toNat_le]
  show 128 ≤ byte.toNat
  split_ifs at hbyte <;>
    simp only [List.mem_cons, List.not_mem_nil, or_false] at hbyte
  · rcases hbyte with rfl | rfl <;> (rw [UInt8.toNat_ofNat']; omega)
  · rcases hbyte with rfl | rfl | rfl <;> decide
  · rcases hbyte with rfl | rfl | rfl <;> (rw [UInt8.toNat_ofNat']; omega)
  · rcases hbyte with rfl | rfl | rfl | rfl <;> (rw [UInt8.toNat_ofNat']; omega)

variable (tables : UnicodeTables)

theorem encodeRune_lowerRune (byte : UInt8) (h : byte < 128) :
    encodeRune (tables.lowerRune byte.toNat) = [lowerByte byte] := by
  have hlt : byte.toNat < 128 := h
  have hbelow : (if 65 ≤ byte.toNat ∧ byte.toNat ≤ 90 then byte.toNat + 32 else byte.toNat) < 128 := by
    split_ifs <;> omega
  rw [UnicodeTables.lowerRune, if_pos hlt, encodeRune_ascii hbelow]
  revert hlt hbelow h
  revert byte
  exact forall_byte (by decide)

theorem encodeRune_upperRune (byte : UInt8) (h : byte < 128) :
    encodeRune (tables.upperRune byte.toNat) = [upperByte byte] := by
  have hlt : byte.toNat < 128 := h
  have hbelow : (if 97 ≤ byte.toNat ∧ byte.toNat ≤ 122 then byte.toNat - 32 else byte.toNat) < 128 := by
    split_ifs <;> omega
  rw [UnicodeTables.upperRune, if_pos hlt, encodeRune_ascii hbelow]
  revert hlt hbelow h
  revert byte
  exact forall_byte (by decide)

theorem flatMap_ascii {wide : Nat → Bytes} {narrow : UInt8 → UInt8} (h : ∀ byte ∈ s, byte < 128)
    (hwide : ∀ byte : UInt8, byte < 128 → wide byte.toNat = [narrow byte]) :
    (decodeRunes s).flatMap wide = s.map narrow := by
  rw [decodeRunes_ascii h]
  induction s with
  | nil => rfl
  | cons first rest ih =>
    obtain ⟨hfirst, hrest⟩ := List.forall_mem_cons.mp h
    rw [List.map_cons, List.flatMap_cons, List.map_cons, hwide first hfirst, ih hrest]
    rfl

theorem toLower_ascii (h : ∀ byte ∈ s, byte < 128) :
    toLower tables s = s.map lowerByte :=
  flatMap_ascii h (encodeRune_lowerRune tables)

theorem toUpper_ascii (h : ∀ byte ∈ s, byte < 128) :
    toUpper tables s = s.map upperByte :=
  flatMap_ascii h (encodeRune_upperRune tables)

/-- No rune outside ASCII has a small ASCII letter as its upper case. -/
def UnicodeTables.Uppers : Prop :=
  ∀ rune, 128 ≤ rune → ¬ (97 ≤ tables.toUpper rune ∧ tables.toUpper rune ≤ 122)

/-- An ASCII text that was mapped to upper case has no small letter. -/
theorem isLowerLetter_of_mem_toUpper {tables : UnicodeTables} (htables : tables.Uppers)
    (h : ∀ byte ∈ toUpper tables s, byte < 128) :
    ∀ byte ∈ toUpper tables s, isLowerLetter byte = false := by
  intro byte hbyte
  obtain ⟨rune, _, hmem⟩ := List.mem_flatMap.mp hbyte
  have hascii : byte < 128 := h byte hbyte
  have hnarrow : tables.upperRune rune < 128 := by
    by_contra hwide
    have hhigh := le_of_mem_encodeRune (not_lt.mp hwide) hmem
    exact absurd hascii (not_lt.mpr hhigh)
  rw [encodeRune_ascii hnarrow, List.mem_singleton] at hmem
  have hvalue : byte.toNat = tables.upperRune rune := by
    rw [hmem, UInt8.toNat_ofNat']
    omega
  have hupper : ¬ (97 ≤ tables.upperRune rune ∧ tables.upperRune rune ≤ 122) := by
    unfold UnicodeTables.upperRune
    split_ifs
    · omega
    · omega
    · exact htables rune (by omega)
  simp only [isLowerLetter, decide_eq_false_iff_not, UInt8.le_iff_toNat_le]
  show ¬ (97 ≤ byte.toNat ∧ byte.toNat ≤ 122)
  rwa [hvalue]

theorem toUpper_toUpper {tables : UnicodeTables} (htables : tables.Uppers)
    (h : ∀ byte ∈ toUpper tables s, byte < 128) :
    toUpper tables (toUpper tables s) = toUpper tables s := by
  rw [toUpper_ascii tables h]
  refine (List.map_congr_left fun byte hbyte => ?_).trans (List.map_id _)
  rw [upperByte, isLowerLetter_of_mem_toUpper htables h byte hbyte]
  rfl

theorem lt_of_validToken (h : validToken s = true) : ∀ byte ∈ s, byte < 128 := by
  intro byte hbyte
  simp only [validToken, Bool.and_eq_true, List.all_eq_true] at h
  have htoken := h.2 byte hbyte
  revert htoken
  exact forall_byte (P := fun byte => isTokenByte byte = true → byte < 128) (by decide) byte

/-! ## Header keys -/

theorem all_isTokenByte_lower (s : Bytes) :
    (s.map lowerByte).all isTokenByte = s.all isTokenByte := by
  rw [List.all_map]
  exact congrArg s.all (funext isTokenByte_lowerByte)

theorem validToken_of_lower {left right : Bytes} (h : left.map lowerByte = right.map lowerByte)
    (hleft : validToken left = true) : validToken right = true := by
  have hempty : right.isEmpty = left.isEmpty := by
    have hlength := congrArg List.length h
    rw [List.length_map, List.length_map] at hlength
    rw [Bool.eq_iff_iff, List.isEmpty_iff_length_eq_zero, List.isEmpty_iff_length_eq_zero, hlength]
  rw [validToken, ← all_isTokenByte_lower, h, all_isTokenByte_lower] at hleft
  rwa [validToken, hempty]

/-- The case of the next letter of a header key. -/
theorem canonicalizeFrom_lowerByte (upper : Bool) (s : Bytes) :
    canonicalizeFrom upper (s.map lowerByte) = canonicalizeFrom upper s := by
  induction s generalizing upper with
  | nil => rfl
  | cons byte rest ih =>
    have hsame : ∀ upper : Bool,
        (if upper && isLowerLetter (lowerByte byte) then lowerByte byte - 32
          else if !upper && isUpperLetter (lowerByte byte) then lowerByte byte + 32
          else lowerByte byte) =
        (if upper && isLowerLetter byte then byte - 32
          else if !upper && isUpperLetter byte then byte + 32 else byte) := by
      revert byte
      exact forall_byte (by decide)
    simp only [List.map_cons, canonicalizeFrom, hsame, ih]

theorem lowerByte_canonicalizeFrom (upper : Bool) (s : Bytes) :
    (canonicalizeFrom upper s).map lowerByte = s.map lowerByte := by
  induction s generalizing upper with
  | nil => rfl
  | cons byte rest ih =>
    have hsame : ∀ upper : Bool,
        lowerByte (if upper && isLowerLetter byte then byte - 32
          else if !upper && isUpperLetter byte then byte + 32 else byte) = lowerByte byte := by
      revert byte
      exact forall_byte (by decide)
    simp only [List.map_cons, canonicalizeFrom, hsame, ih]

/-- Spellings of one header name have one key. -/
theorem canonicalMIMEHeaderKey_of_lower {left right : Bytes}
    (h : left.map lowerByte = right.map lowerByte) (hleft : validToken left = true) :
    canonicalMIMEHeaderKey right = canonicalMIMEHeaderKey left := by
  have hright := validToken_of_lower h hleft
  simp only [validToken, Bool.and_eq_true] at hleft hright
  rw [canonicalMIMEHeaderKey, if_pos hright.2, canonicalMIMEHeaderKey, if_pos hleft.2,
    ← canonicalizeFrom_lowerByte, ← h, canonicalizeFrom_lowerByte]

theorem lowerByte_canonicalMIMEHeaderKey {name : Bytes} :
    (canonicalMIMEHeaderKey name).map lowerByte = name.map lowerByte := by
  unfold canonicalMIMEHeaderKey
  split_ifs
  · exact lowerByte_canonicalizeFrom true name
  · rfl

theorem canonicalMIMEHeaderKey_idem (name : Bytes) :
    canonicalMIMEHeaderKey (canonicalMIMEHeaderKey name) = canonicalMIMEHeaderKey name := by
  by_cases htoken : name.all isTokenByte = true
  · have hkey : canonicalMIMEHeaderKey name = canonicalizeFrom true name := if_pos htoken
    have hlower : (canonicalizeFrom true name).all isTokenByte = true := by
      rw [← all_isTokenByte_lower, lowerByte_canonicalizeFrom, all_isTokenByte_lower, htoken]
    rw [hkey, canonicalMIMEHeaderKey, if_pos hlower, ← canonicalizeFrom_lowerByte,
      lowerByte_canonicalizeFrom, canonicalizeFrom_lowerByte]
  · have hkey : canonicalMIMEHeaderKey name = name := if_neg htoken
    rw [hkey, hkey]

namespace Header

/-- Every key is its own canonical form. -/
def Canonical (header : Header) : Prop :=
  ∀ entry ∈ header.entries, canonicalMIMEHeaderKey entry.1 = entry.1

instance (header : Header) : Decidable header.Canonical :=
  inferInstanceAs (Decidable (∀ entry ∈ header.entries, _))

/-- The values that are sent under any spelling of a name. -/
def sent (header : Header) (name : Bytes) : List Bytes :=
  (header.entries.filter fun entry => entry.1.map lowerByte == name.map lowerByte).flatMap Prod.snd

theorem Canonical.del (h : header.Canonical) (name : Bytes) : (header.del name).Canonical :=
  fun entry hentry => h entry (List.mem_filter.mp hentry).1

theorem Canonical.foldl_del (h : header.Canonical) (names : List Bytes) :
    (names.foldl Header.del header).Canonical := by
  induction names generalizing header with
  | nil => exact h
  | cons name rest ih => exact ih (h.del name)

theorem Canonical.set (h : header.Canonical) (name value : Bytes) :
    (header.set name value).Canonical := by
  intro entry hentry
  have hkey : entry.1 ∈ (header.set name value).entries.map Prod.fst := List.mem_map_of_mem hentry
  rcases Library.Assoc.mem_keys_upsert.mp hkey with hsame | hold
  · rw [hsame, canonicalMIMEHeaderKey_idem]
  · obtain ⟨stored, hstored, hsame⟩ := List.mem_map.mp hold
    exact hsame ▸ h stored hstored

theorem Canonical.setFields (h : header.Canonical) (fields : List (Bytes × Option Bytes)) :
    (header.setFields fields).Canonical := by
  induction fields generalizing header with
  | nil => exact h
  | cons field rest ih =>
    obtain ⟨name, value⟩ := field
    cases value with
    | none => exact ih h
    | some value => exact ih (h.set name value)

/-- In a canonical map a name has one spelling. -/
theorem sent_eq (h : header.Canonical) {name : Bytes} (htoken : validToken name = true)
    (hname : canonicalMIMEHeaderKey name = name) :
    header.sent name = (header.lookup name).getD [] := by
  have hfilter : header.entries.filter (fun entry => entry.1.map lowerByte == name.map lowerByte) =
      header.entries.filter fun entry => entry.1 == name := by
    refine List.filter_congr fun entry hentry => ?_
    rw [Bool.eq_iff_iff, beq_iff_eq, beq_iff_eq]
    constructor
    · intro hlower
      have hkey := canonicalMIMEHeaderKey_of_lower hlower.symm htoken
      rwa [h entry hentry, hname] at hkey
    · exact congrArg (List.map lowerByte)
  rw [sent, hfilter, List.flatMap_def, Library.Assoc.map_filter_key header.nodup]
  unfold lookup
  cases header.entries.lookup name <;> simp

/-- `Values` misses no spelling of a canonical map. -/
theorem sent_eq_values (h : header.Canonical) {name : Bytes} (htoken : validToken name = true) :
    header.sent name = header.values name := by
  have hkey : validToken (canonicalMIMEHeaderKey name) = true :=
    validToken_of_lower lowerByte_canonicalMIMEHeaderKey.symm htoken
  have hsent : header.sent name = header.sent (canonicalMIMEHeaderKey name) := by
    rw [sent, sent, lowerByte_canonicalMIMEHeaderKey]
  rw [hsent, sent_eq h hkey (canonicalMIMEHeaderKey_idem name), values]

end Header

/-! ## Labels -/

theorem split_cons (rest : Bytes) (separator : UInt8) :
    split (byte :: rest) separator =
      if byte == separator then [] :: split rest separator
      else (split rest separator).modifyHead (byte :: ·) :=
  List.splitOn_cons_eq_if_modifyHead byte rest

theorem exists_split_eq_cons (s : Bytes) (separator : UInt8) :
    ∃ first rest, split s separator = first :: rest :=
  List.exists_cons_of_ne_nil (List.splitOn_ne_nil separator s)

/-- Every byte but the separator is in one of the pieces. -/
theorem exists_mem_split (separator : UInt8) {byte : UInt8} (h : byte ∈ s) :
    byte = separator ∨ ∃ piece ∈ split s separator, byte ∈ piece := by
  induction s with
  | nil => contradiction
  | cons head tail ih =>
    obtain ⟨first, rest, hpieces⟩ := exists_split_eq_cons tail separator
    rw [hpieces] at ih
    rw [split_cons, hpieces, List.modifyHead_cons]
    by_cases hhead : head = separator
    · rw [if_pos (by simp [hhead])]
      rcases List.mem_cons.mp h with rfl | hmem
      · exact Or.inl hhead
      rcases ih hmem with hsame | ⟨piece, hpiece, hbyte⟩
      · exact Or.inl hsame
      · exact Or.inr ⟨piece, List.mem_cons_of_mem _ hpiece, hbyte⟩
    · rw [if_neg (by simp [hhead])]
      rcases List.mem_cons.mp h with rfl | hmem
      · exact Or.inr ⟨byte :: first, List.mem_cons_self, List.mem_cons_self⟩
      rcases ih hmem with hsame | ⟨piece, hpiece, hbyte⟩
      · exact Or.inl hsame
      rcases List.mem_cons.mp hpiece with rfl | hrest
      · exact Or.inr ⟨head :: piece, List.mem_cons_self, List.mem_cons_of_mem _ hbyte⟩
      · exact Or.inr ⟨piece, List.mem_cons_of_mem _ hrest, hbyte⟩

/-- A piece consists of bytes of the text other than the separator, and is no longer. -/
theorem mem_of_mem_split {separator : UInt8} :
    ∀ piece ∈ split s separator, piece.length ≤ s.length ∧
      ∀ byte ∈ piece, byte ∈ s ∧ byte ≠ separator := by
  induction s with
  | nil =>
    intro piece hpiece
    have hnil : piece = [] := by simpa [split] using hpiece
    simp [hnil]
  | cons head tail ih =>
    obtain ⟨first, rest, hpieces⟩ := exists_split_eq_cons tail separator
    rw [hpieces] at ih
    have htail : ∀ piece ∈ first :: rest, piece.length ≤ (head :: tail).length ∧
        ∀ byte ∈ piece, byte ∈ head :: tail ∧ byte ≠ separator := by
      intro piece hpiece
      obtain ⟨hlength, hbytes⟩ := ih piece hpiece
      exact ⟨hlength.trans (Nat.le_succ _), fun byte hbyte =>
        ⟨List.mem_cons_of_mem _ (hbytes byte hbyte).1, (hbytes byte hbyte).2⟩⟩
    rw [split_cons, hpieces, List.modifyHead_cons]
    by_cases hhead : head = separator
    · rw [if_pos (by simp [hhead])]
      exact List.forall_mem_cons.mpr ⟨by simp, htail⟩
    rw [if_neg (by simp [hhead])]
    obtain ⟨hfirst, hrest⟩ := List.forall_mem_cons.mp htail
    refine List.forall_mem_cons.mpr ⟨⟨?_, ?_⟩, hrest⟩
    · have hlength := (ih first List.mem_cons_self).1
      simpa using hlength
    · exact List.forall_mem_cons.mpr ⟨⟨List.mem_cons_self, hhead⟩, hfirst.2⟩

/-- After a trailing separator there is an empty piece. -/
theorem nil_mem_split_concat (s : Bytes) (separator : UInt8) :
    [] ∈ split (s ++ [separator]) separator := by
  have hpieces : split (s ++ [separator]) separator = split s separator ++ split [] separator :=
    List.splitOn_append_cons_self s []
  rw [hpieces, List.mem_append]
  exact Or.inr List.mem_cons_self

/-! ## Dotted addresses -/

section Dotted

variable {s : Bytes} {fresh : Bool} {value position digits : Nat}

theorem bytes_of_ipv4Fields (h : ipv4Fields s fresh value position digits = true) :
    ∀ byte ∈ s, isDigit byte = true ∨ byte = 46 := by
  induction s generalizing fresh value position digits with
  | nil => simp
  | cons byte rest ih =>
    rw [ipv4Fields] at h
    split_ifs at h with hdigit hzero hlarge hdot hempty
    · exact List.forall_mem_cons.mpr ⟨Or.inl hdigit, ih h⟩
    · exact List.forall_mem_cons.mpr ⟨Or.inr hdot, ih h⟩

/-- A field has at most three digits, since it has no leading zero. -/
theorem length_of_ipv4Fields (h : ipv4Fields s fresh value position digits = true)
    (hposition : position ≤ 3) (hdigits : digits ≤ 3) (htwo : digits = 2 → 10 ≤ value)
    (hthree : digits = 3 → 100 ≤ value) : s.length ≤ (3 - digits) + 4 * (3 - position) := by
  induction s generalizing fresh value position digits with
  | nil => simp
  | cons byte rest ih =>
    rw [ipv4Fields] at h
    split_ifs at h with hdigit hzero hlarge hdot hempty
    · have hbound : digits ≤ 2 := by
        by_contra hmany
        have hfull := hthree (by omega)
        omega
      have hlength := ih h hposition (by omega) (by omega) (by omega)
      simp only [List.length_cons]
      omega
    · have hlast : position ≠ 3 := by
        intro hlast
        simp [hlast] at hempty
      have hlength := ih h (by omega) (by omega) (by omega) (by omega)
      simp only [List.length_cons]
      omega

/-- There is no field after a trailing dot. -/
theorem ipv4Fields_concat_dot (s : Bytes) (fresh : Bool) (value position digits : Nat) :
    ipv4Fields (s ++ [46]) fresh value position digits = false := by
  induction s generalizing fresh value position digits with
  | nil => simp [ipv4Fields, isDigit]
  | cons byte rest ih =>
    rw [List.cons_append, ipv4Fields]
    split_ifs <;> first | rfl | exact ih _ _ _ _

/-- No field is empty; the first piece may be what is left of a field. -/
theorem pieces_of_ipv4Fields (h : ipv4Fields s fresh value position digits = true)
    (hrest : fresh = true → s ≠ []) :
    (∀ piece ∈ (split s 46).tail, piece ≠ []) ∧ (fresh = true → (split s 46).head? ≠ some []) := by
  induction s generalizing fresh value position digits with
  | nil => simpa [split] using hrest
  | cons byte rest ih =>
    obtain ⟨first, others, hpieces⟩ := exists_split_eq_cons rest 46
    rw [ipv4Fields] at h
    rw [split_cons, hpieces, List.modifyHead_cons]
    rw [hpieces] at ih
    split_ifs at h with hdigit hzero hlarge hdot hempty
    · have hne : byte ≠ 46 := by
        rintro rfl
        contradiction
      rw [if_neg (by simp [hne])]
      refine ⟨(ih h (by simp)).1, by simp⟩
    · simp only [Bool.or_eq_true, List.isEmpty_iff, not_or] at hempty
      obtain ⟨htail, hhead⟩ := ih h fun _ => hempty.1.2
      rw [if_pos (by simp [hdot])]
      refine ⟨?_, fun hfresh => absurd hfresh hempty.1.1⟩
      refine List.forall_mem_cons.mpr ⟨?_, htail⟩
      simpa using hhead rfl

end Dotted

theorem validIPv4_of_validAddr (h : validAddr s = true) (hcolon : (58 : UInt8) ∉ s) :
    validIPv4 s = true := by
  unfold validAddr at h
  split at h
  · exact h
  · rename_i hfound
    exact absurd (List.mem_of_find?_eq_some hfound) hcolon
  · contradiction

/-- The fields of a dotted address: not empty, digits only, and at most 15 bytes in all. -/
theorem validIPv4_spec (h : validIPv4 s = true) :
    (∀ byte ∈ s, isDigit byte = true ∨ byte = 46) ∧ s ≠ [] ∧ s.length ≤ 15 ∧
      (∀ piece ∈ split s 46, piece ≠ []) := by
  have hne : s ≠ [] := by
    rintro rfl
    contradiction
  obtain ⟨htail, hhead⟩ := pieces_of_ipv4Fields h fun _ => hne
  obtain ⟨first, rest, hpieces⟩ := exists_split_eq_cons s 46
  rw [hpieces] at htail hhead ⊢
  refine ⟨bytes_of_ipv4Fields h, hne, ?_, List.forall_mem_cons.mpr ⟨?_, htail⟩⟩
  · exact length_of_ipv4Fields h (by omega) (by omega) (by omega) (by omega)
  · simpa using hhead rfl

end GGateway.Text
