import GGateway.Text.Spelling

/-!
# Reading and writing runes

`decodeRune` and `encodeRune` are inverse to each other where they can be: what
`utf8.AppendRune` writes is read back as one rune, and a string that is read
falls into ASCII bytes, encodings of one rune each and bytes that start no
encoding.  The last of these make the reader lossy, so a text is valid exactly
when writing its runes gives it back.

* `decodeRunes_append_encodeRune` and `decodeRunes_flatMap` are the round trip;
* `runes_induction` is induction along the runes of an arbitrary byte string;
* `Lowered.toLower_eq` says when mapping to lower case changes nothing.
-/

namespace GGateway.Text

/-- The rune that is read back after `utf8.AppendRune`. -/
def scalar (rune : Nat) : Nat :=
  if (0xD800 ≤ rune ∧ rune ≤ 0xDFFF) ∨ 0x10FFFF < rune then runeError else rune

theorem encodeRune_scalar (rune : Nat) : encodeRune (scalar rune) = encodeRune rune := by
  unfold scalar
  split
  next h =>
    have hascii : ¬ rune < 0x80 := by omega
    have htwo : ¬ rune < 0x800 := by omega
    have hwritten : encodeRune rune = [0xEF, 0xBF, 0xBD] := by
      unfold encodeRune
      rw [if_neg hascii, if_neg htwo, if_pos h]
    rw [hwritten]
    rfl
  next => rfl

/-! ## One rune

The comparisons of the decoder are turned into comparisons of numbers, so that
`omega` sees the bytes that the encoder computed by division. -/

theorem isContinuation_iff (byte : UInt8) :
    isContinuation byte = true ↔ 0x80 ≤ byte.toNat ∧ byte.toNat ≤ 0xBF := by
  simp [isContinuation, UInt8.le_iff_toNat_le]

theorem acceptsSecond_iff (lead second : UInt8) :
    acceptsSecond lead second = true ↔
      0x80 ≤ second.toNat ∧ second.toNat ≤ 0xBF ∧
      (lead.toNat = 0xE0 → 0xA0 ≤ second.toNat) ∧ (lead.toNat = 0xED → second.toNat ≤ 0x9F) ∧
      (lead.toNat = 0xF0 → 0x90 ≤ second.toNat) ∧ (lead.toNat = 0xF4 → second.toNat ≤ 0x8F) := by
  simp only [acceptsSecond, secondByteRange, decide_eq_true_eq, UInt8.le_iff_toNat_le,
    ← UInt8.toNat_inj]
  split_ifs <;> simp_all <;> omega

theorem two_iff (b0 b1 : UInt8) :
    (0xC2 ≤ b0 ∧ b0 ≤ 0xDF ∧ isContinuation b1 = true) ↔
      0xC2 ≤ b0.toNat ∧ b0.toNat ≤ 0xDF ∧ 0x80 ≤ b1.toNat ∧ b1.toNat ≤ 0xBF := by
  rw [isContinuation_iff, UInt8.le_iff_toNat_le, UInt8.le_iff_toNat_le]
  rfl

theorem three_iff (b0 b1 b2 : UInt8) :
    (0xE0 ≤ b0 ∧ b0 ≤ 0xEF ∧ acceptsSecond b0 b1 = true ∧ isContinuation b2 = true) ↔
      0xE0 ≤ b0.toNat ∧ b0.toNat ≤ 0xEF ∧ acceptsSecond b0 b1 = true ∧
        0x80 ≤ b2.toNat ∧ b2.toNat ≤ 0xBF := by
  rw [isContinuation_iff, UInt8.le_iff_toNat_le, UInt8.le_iff_toNat_le]
  rfl

theorem four_iff (b0 b1 b2 b3 : UInt8) :
    (0xF0 ≤ b0 ∧ b0 ≤ 0xF4 ∧ acceptsSecond b0 b1 = true ∧ isContinuation b2 = true ∧
        isContinuation b3 = true) ↔
      0xF0 ≤ b0.toNat ∧ b0.toNat ≤ 0xF4 ∧ acceptsSecond b0 b1 = true ∧
        (0x80 ≤ b2.toNat ∧ b2.toNat ≤ 0xBF) ∧ 0x80 ≤ b3.toNat ∧ b3.toNat ≤ 0xBF := by
  rw [isContinuation_iff, isContinuation_iff, UInt8.le_iff_toNat_le, UInt8.le_iff_toNat_le]
  rfl

variable {byte b0 b1 b2 sep : UInt8} {rune : Nat} {s : Bytes}

theorem ofNat_eq_of_toNat {value : Nat} (h : byte.toNat = value) : UInt8.ofNat value = byte := by
  rw [← h, UInt8.ofNat_toNat]

theorem encodeRune_two (h : 0xC2 ≤ b0.toNat ∧ b0.toNat ≤ 0xDF ∧ 0x80 ≤ b1.toNat ∧ b1.toNat ≤ 0xBF)
    (hrune : rune = (b0.toNat - 0xC0) * 64 + (b1.toNat - 0x80)) : encodeRune rune = [b0, b1] := by
  have hb0 : UInt8.ofNat (0xC0 + rune / 64) = b0 := ofNat_eq_of_toNat (by omega)
  have hb1 : UInt8.ofNat (0x80 + rune % 64) = b1 := ofNat_eq_of_toNat (by omega)
  unfold encodeRune
  rw [if_neg (by omega), if_pos (by omega), hb0, hb1]

theorem encodeRune_three
    (h : 0xE0 ≤ b0.toNat ∧ b0.toNat ≤ 0xEF ∧ acceptsSecond b0 b1 = true ∧
      0x80 ≤ b2.toNat ∧ b2.toNat ≤ 0xBF)
    (hrune : rune = (b0.toNat - 0xE0) * 4096 + (b1.toNat - 0x80) * 64 + (b2.toNat - 0x80)) :
    encodeRune rune = [b0, b1, b2] := by
  rw [acceptsSecond_iff] at h
  have hb0 : UInt8.ofNat (0xE0 + rune / 4096) = b0 := ofNat_eq_of_toNat (by omega)
  have hb1 : UInt8.ofNat (0x80 + rune / 64 % 64) = b1 := ofNat_eq_of_toNat (by omega)
  have hb2 : UInt8.ofNat (0x80 + rune % 64) = b2 := ofNat_eq_of_toNat (by omega)
  unfold encodeRune
  rw [if_neg (by omega), if_neg (by omega), if_neg (by omega), if_pos (by omega), hb0, hb1, hb2]

theorem encodeRune_four {b3 : UInt8}
    (h : 0xF0 ≤ b0.toNat ∧ b0.toNat ≤ 0xF4 ∧ acceptsSecond b0 b1 = true ∧
      (0x80 ≤ b2.toNat ∧ b2.toNat ≤ 0xBF) ∧ 0x80 ≤ b3.toNat ∧ b3.toNat ≤ 0xBF)
    (hrune : rune = (b0.toNat - 0xF0) * 262144 + (b1.toNat - 0x80) * 4096 +
      (b2.toNat - 0x80) * 64 + (b3.toNat - 0x80)) : encodeRune rune = [b0, b1, b2, b3] := by
  rw [acceptsSecond_iff] at h
  have hb0 : UInt8.ofNat (0xF0 + rune / 262144) = b0 := ofNat_eq_of_toNat (by omega)
  have hb1 : UInt8.ofNat (0x80 + rune / 4096 % 64) = b1 := ofNat_eq_of_toNat (by omega)
  have hb2 : UInt8.ofNat (0x80 + rune / 64 % 64) = b2 := ofNat_eq_of_toNat (by omega)
  have hb3 : UInt8.ofNat (0x80 + rune % 64) = b3 := ofNat_eq_of_toNat (by omega)
  unfold encodeRune
  rw [if_neg (by omega), if_neg (by omega), if_neg (by omega), if_neg (by omega), hb0, hb1, hb2,
    hb3]

/-- What the reader makes of the bytes at one position: an ASCII byte, the
encoding of a rune beyond ASCII, or a byte that starts no encoding. -/
inductive Reads : UInt8 → Bytes → Nat × Nat → Prop
  | ascii {b0 : UInt8} {rest : Bytes} (small : b0 < 0x80) : Reads b0 rest (b0.toNat, 1)
  | wide {b0 : UInt8} {more tail : Bytes} {rune : Nat} (large : 0x80 ≤ rune)
      (written : encodeRune rune = b0 :: more) (read : scalar rune = rune) :
      Reads b0 (more ++ tail) (rune, more.length + 1)
  | invalid {b0 : UInt8} {rest : Bytes} (large : 0x80 ≤ b0) : Reads b0 rest (runeError, 1)

theorem reads_two (tail : Bytes) (h : 0xC2 ≤ b0 ∧ b0 ≤ 0xDF ∧ isContinuation b1 = true) :
    Reads b0 ([b1] ++ tail) (decodeRune.two b0 b1) := by
  rw [two_iff] at h
  exact .wide (by omega) (encodeRune_two h rfl) (if_neg (by omega))

theorem reads_three (tail : Bytes)
    (h : 0xE0 ≤ b0 ∧ b0 ≤ 0xEF ∧ acceptsSecond b0 b1 = true ∧ isContinuation b2 = true) :
    Reads b0 ([b1, b2] ++ tail) (decodeRune.three b0 b1 b2) := by
  rw [three_iff] at h
  have hwritten := encodeRune_three h rfl
  rw [acceptsSecond_iff] at h
  exact .wide (by omega) hwritten (if_neg (by omega))

theorem reads_four {b3 : UInt8} (tail : Bytes)
    (h : 0xF0 ≤ b0 ∧ b0 ≤ 0xF4 ∧ acceptsSecond b0 b1 = true ∧ isContinuation b2 = true ∧
      isContinuation b3 = true) :
    Reads b0 ([b1, b2, b3] ++ tail)
      ((b0.toNat - 0xF0) * 262144 + (b1.toNat - 0x80) * 4096 + (b2.toNat - 0x80) * 64 +
        (b3.toNat - 0x80), 4) := by
  rw [four_iff] at h
  have hwritten := encodeRune_four h rfl
  rw [acceptsSecond_iff] at h
  exact .wide (by omega) hwritten (if_neg (by omega))

theorem reads_decodeRune (b0 : UInt8) (rest : Bytes) : Reads b0 rest (decodeRune b0 rest) := by
  unfold decodeRune
  split
  next h => exact .ascii h
  next h =>
    have hlarge : 0x80 ≤ b0 := not_lt.mp h
    -- the decoder looks at no more than the three bytes that follow
    match rest with
    | [] => exact .invalid hlarge
    | [b1] =>
      dsimp only
      split_ifs with h2
      · exact reads_two [] h2
      · exact .invalid hlarge
    | [b1, b2] =>
      dsimp only
      split_ifs with h2 h3
      · exact reads_two [b2] h2
      · exact reads_three [] h3
      · exact .invalid hlarge
    | b1 :: b2 :: b3 :: tail =>
      dsimp only
      split_ifs with h2 h3 h4
      · exact reads_two (b2 :: b3 :: tail) h2
      · exact reads_three (b3 :: tail) h3
      · exact reads_four tail h4
      · exact .invalid hlarge

theorem decodeRune_two (s : Bytes)
    (h : 0xC2 ≤ b0.toNat ∧ b0.toNat ≤ 0xDF ∧ 0x80 ≤ b1.toNat ∧ b1.toNat ≤ 0xBF) :
    decodeRune b0 (b1 :: s) = decodeRune.two b0 b1 := by
  have hlarge : ¬ b0 < 0x80 := by
    rw [UInt8.lt_iff_toNat_lt]
    exact fun hsmall => absurd (show b0.toNat < 128 from hsmall) (by omega)
  have hlead := (two_iff b0 b1).mpr h
  unfold decodeRune
  rw [if_neg hlarge]
  match s with
  | [] => exact if_pos hlead
  | [_] => exact if_pos hlead
  | _ :: _ :: _ => exact if_pos hlead

theorem decodeRune_three (s : Bytes)
    (h : 0xE0 ≤ b0.toNat ∧ b0.toNat ≤ 0xEF ∧ acceptsSecond b0 b1 = true ∧
      0x80 ≤ b2.toNat ∧ b2.toNat ≤ 0xBF) :
    decodeRune b0 (b1 :: b2 :: s) = decodeRune.three b0 b1 b2 := by
  have hlarge : ¬ b0 < 0x80 := by
    rw [UInt8.lt_iff_toNat_lt]
    exact fun hsmall => absurd (show b0.toNat < 128 from hsmall) (by omega)
  have htwo : ¬ (0xC2 ≤ b0 ∧ b0 ≤ 0xDF ∧ isContinuation b1 = true) := by
    rw [two_iff]
    omega
  have hlead := (three_iff b0 b1 b2).mpr h
  unfold decodeRune
  rw [if_neg hlarge]
  match s with
  | [] => exact (if_neg htwo).trans (if_pos hlead)
  | _ :: _ => exact (if_neg htwo).trans (if_pos hlead)

theorem decodeRune_four {b3 : UInt8} (s : Bytes)
    (h : 0xF0 ≤ b0.toNat ∧ b0.toNat ≤ 0xF4 ∧ acceptsSecond b0 b1 = true ∧
      (0x80 ≤ b2.toNat ∧ b2.toNat ≤ 0xBF) ∧ 0x80 ≤ b3.toNat ∧ b3.toNat ≤ 0xBF) :
    decodeRune b0 (b1 :: b2 :: b3 :: s) =
      ((b0.toNat - 0xF0) * 262144 + (b1.toNat - 0x80) * 4096 + (b2.toNat - 0x80) * 64 +
        (b3.toNat - 0x80), 4) := by
  have hlarge : ¬ b0 < 0x80 := by
    rw [UInt8.lt_iff_toNat_lt]
    exact fun hsmall => absurd (show b0.toNat < 128 from hsmall) (by omega)
  have htwo : ¬ (0xC2 ≤ b0 ∧ b0 ≤ 0xDF ∧ isContinuation b1 = true) := by
    rw [two_iff]
    omega
  have hthree : ¬ (0xE0 ≤ b0 ∧ b0 ≤ 0xEF ∧ acceptsSecond b0 b1 = true ∧
      isContinuation b2 = true) := by
    rw [three_iff]
    omega
  unfold decodeRune
  rw [if_neg hlarge]
  exact ((if_neg htwo).trans (if_neg hthree)).trans (if_pos ((four_iff b0 b1 b2 b3).mpr h))

/-- The reader takes back exactly the bytes that were written. -/
theorem decodeRune_encodeRune {more : Bytes} (s : Bytes) (hscalar : scalar rune = rune)
    (h : encodeRune rune = b0 :: more) : decodeRune b0 (more ++ s) = (rune, more.length + 1) := by
  have hvalid : ¬ ((0xD800 ≤ rune ∧ rune ≤ 0xDFFF) ∨ 0x10FFFF < rune) := by
    intro hout
    rw [scalar, if_pos hout] at hscalar
    unfold runeError at hscalar
    omega
  have hbyte (value : Nat) (hvalue : value < 256) : (UInt8.ofNat value).toNat = value :=
    UInt8.toNat_ofNat_of_lt hvalue
  unfold encodeRune at h
  -- the widths of the encoder, in its order
  split_ifs at h with h1 h2 h4
  · obtain ⟨h0, rfl⟩ := List.cons.inj h
    have hb0 : b0.toNat = rune := h0 ▸ hbyte rune (by omega)
    have hsmall : b0 < 0x80 := by
      rw [UInt8.lt_iff_toNat_lt, hb0]
      exact h1
    exact (if_pos hsmall).trans (congrArg (·, 1) hb0)
  · obtain ⟨h0, hmore⟩ := List.cons.inj h
    have hb0 : b0.toNat = 0xC0 + rune / 64 := h0 ▸ hbyte _ (by omega)
    have hb1 := hbyte (0x80 + rune % 64) (by omega)
    generalize UInt8.ofNat (0x80 + rune % 64) = b1 at hmore hb1
    subst hmore
    have hvalue : (b0.toNat - 0xC0) * 64 + (b1.toNat - 0x80) = rune := by omega
    exact (decodeRune_two s (by omega)).trans (congrArg (·, 2) hvalue)
  · obtain ⟨h0, hmore⟩ := List.cons.inj h
    have hb0 : b0.toNat = 0xE0 + rune / 4096 := h0 ▸ hbyte _ (by omega)
    have hb1 := hbyte (0x80 + rune / 64 % 64) (by omega)
    have hb2 := hbyte (0x80 + rune % 64) (by omega)
    generalize UInt8.ofNat (0x80 + rune / 64 % 64) = b1 at hmore hb1
    generalize UInt8.ofNat (0x80 + rune % 64) = b2 at hmore hb2
    subst hmore
    have hsecond : acceptsSecond b0 b1 = true := by
      rw [acceptsSecond_iff]
      omega
    have hvalue : (b0.toNat - 0xE0) * 4096 + (b1.toNat - 0x80) * 64 + (b2.toNat - 0x80) = rune := by
      omega
    exact (decodeRune_three s ⟨by omega, by omega, hsecond, by omega, by omega⟩).trans
      (congrArg (·, 3) hvalue)
  · obtain ⟨h0, hmore⟩ := List.cons.inj h
    have hb0 : b0.toNat = 0xF0 + rune / 262144 := h0 ▸ hbyte _ (by omega)
    have hb1 := hbyte (0x80 + rune / 4096 % 64) (by omega)
    have hb2 := hbyte (0x80 + rune / 64 % 64) (by omega)
    have hb3 := hbyte (0x80 + rune % 64) (by omega)
    generalize UInt8.ofNat (0x80 + rune / 4096 % 64) = b1 at hmore hb1
    generalize UInt8.ofNat (0x80 + rune / 64 % 64) = b2 at hmore hb2
    generalize UInt8.ofNat (0x80 + rune % 64) = b3 at hmore hb3
    subst hmore
    have hsecond : acceptsSecond b0 b1 = true := by
      rw [acceptsSecond_iff]
      omega
    have hvalue : (b0.toNat - 0xF0) * 262144 + (b1.toNat - 0x80) * 4096 + (b2.toNat - 0x80) * 64 +
        (b3.toNat - 0x80) = rune := by
      omega
    exact (decodeRune_four s ⟨by omega, by omega, hsecond, by omega, by omega⟩).trans
      (congrArg (·, 4) hvalue)

theorem exists_encodeRune_eq_cons (rune : Nat) : ∃ b0 more, encodeRune rune = b0 :: more := by
  unfold encodeRune
  split_ifs <;> exact ⟨_, _, rfl⟩

/-! ## Whole strings -/

theorem decodeFrom_append (skipped s : Bytes) :
    decodeFrom skipped.length (skipped ++ s) = decodeFrom 0 s := by
  induction skipped with
  | nil => rfl
  | cons byte rest ih => exact ih

theorem decodeRunes_cons_ascii (h : byte < 0x80) (s : Bytes) :
    decodeRunes (byte :: s) = byte.toNat :: decodeRunes s := by
  have hread : decodeRune byte s = (byte.toNat, 1) := if_pos h
  show (decodeRune byte s).1 :: decodeFrom ((decodeRune byte s).2 - 1) s = _
  rw [hread]
  rfl

/-- A rune that was written in front of a text is read in front of it. -/
theorem decodeRunes_append_encodeRune (rune : Nat) (s : Bytes) :
    decodeRunes (encodeRune rune ++ s) = scalar rune :: decodeRunes s := by
  obtain ⟨b0, more, hwritten⟩ := exists_encodeRune_eq_cons (scalar rune)
  have hidem : scalar (scalar rune) = scalar rune := by
    unfold scalar runeError
    split_ifs <;> omega
  have hread := decodeRune_encodeRune s hidem hwritten
  rw [← encodeRune_scalar, hwritten]
  show (decodeRune b0 (more ++ s)).1 :: decodeFrom ((decodeRune b0 (more ++ s)).2 - 1) (more ++ s)
    = _
  rw [hread]
  exact congrArg (scalar rune :: ·) (decodeFrom_append more s)

theorem decodeRunes_flatMap (runes : List Nat) :
    decodeRunes (runes.flatMap encodeRune) = runes.map scalar := by
  induction runes with
  | nil => rfl
  | cons rune rest ih =>
    rw [List.flatMap_cons, decodeRunes_append_encodeRune, ih, List.map_cons]

/-- Induction along the runes of a byte string. -/
theorem runes_induction {P : Bytes → Prop} (nil : P [])
    (ascii : ∀ byte s, byte < 0x80 → P s → P (byte :: s))
    (wide : ∀ rune s, 0x80 ≤ rune → P s → P (encodeRune rune ++ s))
    (invalid : ∀ byte s, 0x80 ≤ byte → decodeRunes (byte :: s) = runeError :: decodeRunes s →
      P s → P (byte :: s)) (s : Bytes) : P s := by
  -- a rune may take several bytes, so the induction is on the length
  induction hlength : s.length using Nat.strong_induction_on generalizing s with
  | _ length ih =>
    cases s with
    | nil => exact nil
    | cons b0 rest =>
      subst hlength
      generalize hread : decodeRune b0 rest = result
      have hcase := reads_decodeRune b0 rest
      rw [hread] at hcase
      cases hcase with
      | ascii small => exact ascii b0 rest small (ih _ (by simp) rest rfl)
      | @wide more tail rune large written read =>
        have hsplit : b0 :: (more ++ tail) = encodeRune rune ++ tail := by rw [written]; rfl
        rw [hsplit]
        exact wide rune tail large (ih _ (by simp) tail rfl)
      | invalid large =>
        refine invalid b0 rest large ?_ (ih _ (by simp) rest rfl)
        show (decodeRune b0 rest).1 :: decodeFrom ((decodeRune b0 rest).2 - 1) rest = _
        rw [hread]
        rfl

/-! ## Lower case -/

/-- What holds of `unicode.ToLower`: a rune in lower case stays, and so does the
replacement rune; the only ASCII runes it yields beyond ASCII are small
letters. -/
structure UnicodeTables.Lowers (tables : UnicodeTables) : Prop where
  idempotent : ∀ rune, tables.lowerRune (tables.lowerRune rune) = tables.lowerRune rune
  replacement : tables.toLower runeError = runeError
  letter : ∀ rune, 0x80 ≤ rune → tables.toLower rune < 0x80 →
    97 ≤ tables.toLower rune ∧ tables.toLower rune ≤ 122

theorem UnicodeTables.asciiOnly_lowers : UnicodeTables.asciiOnly.Lowers where
  idempotent rune := by
    unfold UnicodeTables.lowerRune UnicodeTables.asciiOnly
    dsimp only [id]
    split_ifs <;> omega
  replacement := rfl
  letter rune hlarge hsmall := absurd hsmall (not_lt.mpr hlarge)

/-- A text all of whose runes are in lower case. -/
def Lowered (tables : UnicodeTables) (s : Bytes) : Prop :=
  ∃ runes : List Nat, s = (runes.map tables.lowerRune).flatMap encodeRune

section Lower

variable {tables : UnicodeTables}

theorem lowered_toLower (tables : UnicodeTables) (s : Bytes) : Lowered tables (toLower tables s) :=
  ⟨decodeRunes s, (List.flatMap_map ..).symm⟩

theorem Lowered.toLower_eq (htables : tables.Lowers) (h : Lowered tables s) :
    toLower tables s = s := by
  obtain ⟨runes, rfl⟩ := h
  rw [toLower, decodeRunes_flatMap, List.map_map, List.flatMap_map, List.flatMap_map]
  refine congrArg (runes.flatMap ·) (funext fun rune => ?_)
  show encodeRune (tables.lowerRune (scalar (tables.lowerRune rune))) = _
  -- a value that is no rune was written as the replacement rune
  by_cases hscalar : scalar (tables.lowerRune rune) = tables.lowerRune rune
  · rw [hscalar, htables.idempotent]
  have hreplaced : scalar (tables.lowerRune rune) = runeError := by
    unfold scalar at hscalar ⊢
    split_ifs at hscalar ⊢ with hout
    · rfl
    · exact absurd rfl hscalar
  have hkept : tables.lowerRune runeError = runeError := htables.replacement
  rw [← encodeRune_scalar (tables.lowerRune rune), hreplaced, hkept]

theorem Lowered.of_concat (hbyte : byte < 0x80) (h : Lowered tables (s ++ [byte])) :
    Lowered tables s := by
  obtain ⟨runes, hrunes⟩ := h
  rcases List.eq_nil_or_concat runes with rfl | ⟨earlier, rune, rfl⟩
  · simp at hrunes
  rw [List.concat_eq_append, List.map_append, List.flatMap_append, List.map_singleton,
    List.flatMap_singleton] at hrunes
  -- the last rune is one byte long, since the last byte is ASCII
  have hascii : tables.lowerRune rune < 0x80 := by
    by_contra hlarge
    obtain ⟨b0, more, hwritten⟩ := exists_encodeRune_eq_cons (tables.lowerRune rune)
    have hmem : byte ∈ encodeRune (tables.lowerRune rune) := by
      have hlast := congrArg List.getLast? hrunes
      rw [List.getLast?_concat, List.getLast?_append, hwritten, List.getLast?_cons] at hlast
      rw [hwritten]
      exact List.mem_of_getLast? (by rw [List.getLast?_cons]; simpa using hlast.symm)
    exact absurd (le_of_mem_encodeRune (not_lt.mp hlarge) hmem) (not_le.mpr hbyte)
  rw [encodeRune_ascii hascii] at hrunes
  exact ⟨earlier, (List.append_inj' hrunes rfl).1⟩

theorem Lowered.no_upper (htables : tables.Lowers) (h : Lowered tables s) :
    ∀ byte ∈ s, isUpperLetter byte = false := by
  obtain ⟨runes, rfl⟩ := h
  intro byte hbyte
  rw [List.flatMap_map] at hbyte
  obtain ⟨rune, -, hmem⟩ := List.mem_flatMap.mp hbyte
  have hidem := htables.idempotent rune
  by_cases hascii : tables.lowerRune rune < 0x80
  · rw [encodeRune_ascii hascii, List.mem_singleton] at hmem
    have hvalue : byte.toNat = tables.lowerRune rune := by
      rw [hmem]
      exact UInt8.toNat_ofNat_of_lt (lt_trans hascii (by decide))
    -- a capital letter would have been mapped to another rune
    by_contra hupper
    rw [Bool.not_eq_false, isUpperLetter, decide_eq_true_eq, UInt8.le_iff_toNat_le,
      UInt8.le_iff_toNat_le, hvalue] at hupper
    change 65 ≤ tables.lowerRune rune ∧ tables.lowerRune rune ≤ 90 at hupper
    rw [UnicodeTables.lowerRune, if_pos hascii, if_pos hupper] at hidem
    omega
  · have hlarge := le_of_mem_encodeRune (not_lt.mp hascii) hmem
    clear hbyte hmem
    revert hlarge
    revert byte
    exact forall_byte (by decide)

/-! ### Bytes between the letters -/

/-- An ASCII byte that is no letter. -/
def Separator (byte : UInt8) : Prop :=
  byte < 0x80 ∧ isLetter byte = false

instance (byte : UInt8) : Decidable (Separator byte) :=
  inferInstanceAs (Decidable (_ ∧ _))

theorem lowerByte_eq_separator (hsep : Separator sep) (byte : UInt8) :
    lowerByte byte = sep ↔ byte = sep := by
  have hletter : lowerByte byte = byte ∨
      isLetter (lowerByte byte) = true ∧ isLetter byte = true := by
    revert byte
    exact forall_byte (by decide)
  rcases hletter with hsame | ⟨hlower, hbyte⟩
  · rw [hsame]
  constructor
  · rintro rfl
    exact absurd hlower (by simp [hsep.2])
  · rintro rfl
    exact absurd hbyte (by simp [hsep.2])

theorem toLower_cons_ascii (h : byte < 0x80) (s : Bytes) :
    toLower tables (byte :: s) = lowerByte byte :: toLower tables s := by
  rw [toLower, decodeRunes_cons_ascii h, List.flatMap_cons, encodeRune_lowerRune tables byte h]
  rfl

theorem toLower_append_ascii {before : Bytes} (h : ∀ byte ∈ before, byte < 0x80) (after : Bytes) :
    toLower tables (before ++ after) = before.map lowerByte ++ toLower tables after := by
  induction before with
  | nil => rfl
  | cons byte rest ih =>
    rw [List.forall_mem_cons] at h
    rw [List.cons_append, toLower_cons_ascii h.1, ih h.2]
    rfl

theorem toLower_append_encodeRune (rune : Nat) (s : Bytes) :
    toLower tables (encodeRune rune ++ s) =
      encodeRune (tables.lowerRune (scalar rune)) ++ toLower tables s := by
  rw [toLower, decodeRunes_append_encodeRune, List.flatMap_cons]
  rfl

theorem toLower_cons_invalid (h : decodeRunes (byte :: s) = runeError :: decodeRunes s) :
    toLower tables (byte :: s) =
      encodeRune (tables.lowerRune runeError) ++ toLower tables s := by
  rw [toLower, h, List.flatMap_cons]
  rfl

theorem separator_not_mem_wide (htables : tables.Lowers) (hsep : Separator sep) (h : 0x80 ≤ rune) :
    sep ∉ encodeRune (tables.lowerRune rune) := by
  have hlower : tables.lowerRune rune = tables.toLower rune := if_neg (not_lt.mpr h)
  rw [hlower]
  intro hmem
  by_cases hascii : tables.toLower rune < 0x80
  · have hletter := htables.letter rune h hascii
    rw [encodeRune_ascii hascii, List.mem_singleton] at hmem
    have hvalue : sep.toNat = tables.toLower rune := by
      rw [hmem]
      exact UInt8.toNat_ofNat_of_lt (lt_trans hascii (by decide))
    rw [← hvalue] at hletter
    have hlow : isLowerLetter sep = true := by
      rw [isLowerLetter, decide_eq_true_eq, UInt8.le_iff_toNat_le, UInt8.le_iff_toNat_le]
      exact hletter
    exact absurd hsep.2 (by simp [isLetter, hlow])
  · exact absurd (le_of_mem_encodeRune (not_lt.mp hascii) hmem) (not_le.mpr hsep.1)

theorem le_scalar (h : 0x80 ≤ rune) : 0x80 ≤ scalar rune := by
  unfold scalar runeError
  split_ifs <;> omega

/-- Lower case neither adds nor removes a separator. -/
theorem mem_toLower_iff (htables : tables.Lowers) (hsep : Separator sep) (s : Bytes) :
    sep ∈ toLower tables s ↔ sep ∈ s := by
  induction s using runes_induction with
  | nil => exact Iff.rfl
  | ascii byte s hbyte ih =>
    rw [toLower_cons_ascii hbyte, List.mem_cons, List.mem_cons, ih, eq_comm,
      lowerByte_eq_separator hsep, eq_comm]
  | wide rune s hrune ih =>
    have hraw : sep ∉ encodeRune rune := fun hmem =>
      absurd (le_of_mem_encodeRune hrune hmem) (not_le.mpr hsep.1)
    rw [toLower_append_encodeRune, List.mem_append, List.mem_append, ih]
    simp only [hraw, separator_not_mem_wide htables hsep (le_scalar hrune)]
  | invalid byte s hbyte hread ih =>
    have hne : sep ≠ byte := fun hsame => absurd hsep.1 (not_lt.mpr (hsame ▸ hbyte))
    rw [toLower_cons_invalid hread, List.mem_append, List.mem_cons, ih]
    simp only [hne, separator_not_mem_wide htables hsep (show 0x80 ≤ runeError by decide)]

theorem head?_toLower (htables : tables.Lowers) (hsep : Separator sep)
    (h : (toLower tables s).head? = some sep) : s.head? = some sep := by
  have hwide {rune : Nat} (hrune : 0x80 ≤ rune) (rest : Bytes) :
      (encodeRune (tables.lowerRune rune) ++ rest).head? ≠ some sep := by
    obtain ⟨b0, more, hwritten⟩ := exists_encodeRune_eq_cons (tables.lowerRune rune)
    have hout := separator_not_mem_wide htables hsep hrune
    rw [hwritten] at hout ⊢
    exact fun hhead => hout (Option.some.inj hhead ▸ List.mem_cons_self)
  induction s using runes_induction with
  | nil => exact h
  | ascii byte s hbyte =>
    rw [toLower_cons_ascii hbyte, List.head?_cons] at h
    exact congrArg some ((lowerByte_eq_separator hsep byte).mp (Option.some.inj h))
  | wide rune s hrune =>
    rw [toLower_append_encodeRune] at h
    exact absurd h (hwide (le_scalar hrune) _)
  | invalid byte s hbyte hread =>
    rw [toLower_cons_invalid hread] at h
    exact absurd h (hwide (by decide) _)

theorem toLower_ne_nil (h : s ≠ []) : toLower tables s ≠ [] := by
  obtain ⟨b0, rest, rfl⟩ := List.exists_cons_of_ne_nil h
  obtain ⟨first, more, hwritten⟩ :=
    exists_encodeRune_eq_cons (tables.lowerRune (decodeRune b0 rest).1)
  rw [toLower, decodeRunes, decodeFrom, List.flatMap_cons, hwritten]
  exact List.cons_ne_nil _ _

end Lower

end GGateway.Text
