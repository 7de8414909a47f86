import GGateway.Text.Spelling

/-!
# Trimmed pieces

What `strings.TrimSpace` leaves is part of its input and has nothing more to trim, also
when the input is not valid UTF-8.  A list whose pieces are trimmed and have no comma is
therefore read back from its text: `split_join` splits it at the commas, and the space
after a comma is trimmed away again.
-/

namespace GGateway.Text

/-! ## Dropping white space -/

section Drop

variable {width : Bytes → Nat}

theorem dropSpace_suffix (pending : Nat) (s : Bytes) : dropSpace width pending s <:+ s := by
  induction s generalizing pending with
  | nil => simp [dropSpace]
  | cons byte rest ih =>
    cases pending with
    | succ pending =>
      rw [dropSpace]
      exact (ih pending).trans (List.suffix_cons byte rest)
    | zero =>
      rw [dropSpace]
      split
      · exact List.suffix_refl _
      · next pending _ => exact (ih pending).trans (List.suffix_cons byte rest)

theorem width_dropSpace (hnil : width [] = 0) (pending : Nat) (s : Bytes) :
    width (dropSpace width pending s) = 0 := by
  induction s generalizing pending with
  | nil => rwa [dropSpace]
  | cons byte rest ih =>
    cases pending with
    | succ pending => exact ih pending
    | zero =>
      rw [dropSpace]
      split
      · assumption
      · next pending _ => exact ih pending

theorem dropSpace_of_width {s : Bytes} (h : width s = 0) : dropSpace width 0 s = s := by
  cases s with
  | nil => rfl
  | cons byte rest => rw [dropSpace, h]

end Drop

/-- White space at the start is recognised from its own bytes. -/
theorem leadingSpaceWidth_append {s : Bytes} (h : leadingSpaceWidth s ≠ 0) (rest : Bytes) :
    leadingSpaceWidth (s ++ rest) = leadingSpaceWidth s := by
  match s with
  | [] => exact absurd rfl h
  | [b0] =>
    have hspace : isSpace1 b0 = true := by
      by_contra hnot
      exact h (if_neg hnot)
    match rest with
    | [] => rfl
    | [b1] => simp [leadingSpaceWidth, hspace]
    | b1 :: b2 :: _ => simp [leadingSpaceWidth, hspace]
  | [b0, b1] =>
    match rest with
    | [] => rfl
    | b2 :: _ =>
      simp only [leadingSpaceWidth, List.cons_append, List.nil_append] at h ⊢
      split_ifs at h ⊢ <;> simp_all
  | b0 :: b1 :: b2 :: _ => rfl

/-! ## Trimming -/

theorem trimSpace_inside (s : Bytes) : trimSpace s <:+: s := by
  have hleft : dropSpace leadingSpaceWidth 0 s <:+ s := dropSpace_suffix 0 s
  have hright : trimSpace s <+: dropSpace leadingSpaceWidth 0 s := by
    rw [trimSpace, ← List.reverse_suffix, List.reverse_reverse]
    exact dropSpace_suffix 0 _
  exact hright.isInfix.trans hleft.isInfix

theorem mem_of_mem_trimSpace {s : Bytes} {byte : UInt8} (h : byte ∈ trimSpace s) : byte ∈ s :=
  (trimSpace_inside s).mem h

theorem trimSpace_length_le (s : Bytes) : (trimSpace s).length ≤ s.length :=
  (trimSpace_inside s).length_le

/-- What is left has no white space at either end. -/
theorem width_trimSpace (s : Bytes) :
    leadingSpaceWidth (trimSpace s) = 0 ∧ trailingSpaceWidth (trimSpace s).reverse = 0 := by
  have hleft : leadingSpaceWidth (dropSpace leadingSpaceWidth 0 s) = 0 := width_dropSpace rfl 0 s
  obtain ⟨cut, hcut⟩ : trimSpace s <+: dropSpace leadingSpaceWidth 0 s := by
    rw [trimSpace, ← List.reverse_suffix, List.reverse_reverse]
    exact dropSpace_suffix 0 _
  constructor
  · -- Trimming at the end has brought no white space to the start.
    by_contra hspace
    have hsame := leadingSpaceWidth_append hspace cut
    rw [hcut, hleft] at hsame
    exact hspace hsame.symm
  · rw [trimSpace, List.reverse_reverse]
    exact width_dropSpace rfl 0 _

theorem trimSpace_eq_self_iff {s : Bytes} :
    trimSpace s = s ↔ leadingSpaceWidth s = 0 ∧ trailingSpaceWidth s.reverse = 0 := by
  constructor
  · intro h
    have hwidth := width_trimSpace s
    rwa [h] at hwidth
  · rintro ⟨hleft, hright⟩
    rw [trimSpace, dropSpace_of_width hleft, dropSpace_of_width hright, List.reverse_reverse]

theorem trimSpace_trimSpace (s : Bytes) : trimSpace (trimSpace s) = trimSpace s :=
  trimSpace_eq_self_iff.mpr (width_trimSpace s)

/-- White space in front of an ASCII text, in either direction, is one byte. -/
theorem width_ascii {s : Bytes} (h : ∀ byte ∈ s, byte < 0x80) :
    (leadingSpaceWidth s = 0 ↔ s.head?.all (!isSpace1 ·) = true) ∧
      (trailingSpaceWidth s = 0 ↔ s.head?.all (!isSpace1 ·) = true) := by
  have hwide : ∀ byte : UInt8, byte < 0x80 → byte ∉ [0xC2, 0xE1, 0xE2, 0xE3, 0x85, 0xA0, 0x9F] ∧
      ¬0x80 ≤ byte := forall_byte (by decide)
  match s with
  | [] => simp [leadingSpaceWidth, trailingSpaceWidth]
  | [b0] => simp [leadingSpaceWidth, trailingSpaceWidth]
  | [b0, b1] =>
    have hfirst := hwide b0 (h b0 (by simp))
    simp_all [leadingSpaceWidth, trailingSpaceWidth, isSpace2]
  | b0 :: b1 :: b2 :: _ =>
    have hfirst := hwide b0 (h b0 (by simp))
    simp_all [leadingSpaceWidth, trailingSpaceWidth, isSpace2, isSpace3]

theorem trimSpace_lower_iff {s : Bytes} (h : ∀ byte ∈ s, byte < 0x80) :
    trimSpace (s.map lowerByte) = s.map lowerByte ↔ trimSpace s = s := by
  have hlower : ∀ byte : UInt8, isSpace1 (lowerByte byte) = isSpace1 byte ∧
      (byte < 0x80 → lowerByte byte < 0x80) := forall_byte (by decide)
  have hkept : ∀ byte ∈ s.map lowerByte, byte < 0x80 := by
    rintro _ hbyte
    obtain ⟨byte, hmem, rfl⟩ := List.mem_map.mp hbyte
    exact (hlower byte).2 (h byte hmem)
  rw [trimSpace_eq_self_iff, trimSpace_eq_self_iff, (width_ascii h).1, (width_ascii hkept).1,
    (width_ascii (by simpa using hkept)).2, (width_ascii (by simpa using h)).2, ← List.map_reverse,
    List.head?_map, List.head?_map, Option.all_map, Option.all_map]
  simp only [hlower]

theorem trimSpace_cons_space (s : Bytes) : trimSpace (32 :: s) = trimSpace s := by
  have hwidth : leadingSpaceWidth (32 :: s) = 1 := by
    have hspace : isSpace1 32 = true := rfl
    match s with
    | [] => rfl
    | [_] => simp [leadingSpaceWidth, hspace]
    | _ :: _ :: _ => simp [leadingSpaceWidth, hspace]
  rw [trimSpace, dropSpace, hwidth, trimSpace]

/-! ## Lists in one line -/

/-- A list written with `", "` is split at its commas. -/
theorem split_join {first : Bytes} {rest : List Bytes}
    (h : ∀ piece ∈ first :: rest, (44 : UInt8) ∉ piece) :
    split (join (first :: rest) (ascii ", ")) 44 = first :: rest.map (32 :: ·) := by
  -- The space belongs to the piece after the comma.
  have hspaced : join (first :: rest) (ascii ", ") = join (first :: rest.map (32 :: ·)) [44] := by
    clear h
    induction rest generalizing first with
    | nil => rfl
    | cons second rest ih =>
      rw [join_cons (List.cons_ne_nil _ _), ih, List.map_cons,
        join_cons (List.cons_ne_nil _ _), List.append_assoc, List.append_assoc]
      change first ++ 44 :: 32 :: _ = first ++ 44 :: _
      cases rest with
      | nil => rfl
      | cons third rest =>
        rw [List.map_cons, join_cons (List.cons_ne_nil _ _), join_cons (List.cons_ne_nil _ _)]
        rfl
  rw [hspaced]
  refine List.splitOn_intercalate (44 : UInt8) ?_ (List.cons_ne_nil _ _)
  intro piece hpiece
  rcases List.mem_cons.mp hpiece with rfl | hpiece
  · exact h piece List.mem_cons_self
  obtain ⟨original, horiginal, rfl⟩ := List.mem_map.mp hpiece
  rw [List.mem_cons, not_or]
  exact ⟨by decide, h original (List.mem_cons_of_mem _ horiginal)⟩

end GGateway.Text
