import GGateway.Text.Runes

/-!
# The grammar of address literals

`ipv6Groups` is a loop over the text of an IPv6 address.  `Groups` is the
grammar that the loop accepts, one constructor for each way a group can end, so
that what every accepted address has in common is shown by induction on its
groups: its bytes are hexadecimal digits, colons and dots, it does not end in a
dot, and it is still an address in lower case.
-/

namespace GGateway.Text

def HexGroup (digits : Bytes) : Prop :=
  (∀ byte ∈ digits, isHexDigit byte = true) ∧ digits.length ≠ 0 ∧ digits.length ≤ 4

/-- The texts that `parseIPv6` reads from some point on: the groups that still
fit, the text, the bytes filled so far and whether a `::` was seen. -/
inductive Groups : Nat → Bytes → Nat → Bool → Prop
  | full {filled : Nat} {ellipsis : Bool} (finished : ipv6Finish [] filled ellipsis = true) :
      Groups 0 [] filled ellipsis
  | last {room filled : Nat} {ellipsis : Bool} {digits : Bytes} (group : HexGroup digits)
      (finished : ipv6Finish [] (filled + 2) ellipsis = true) :
      Groups (room + 1) digits filled ellipsis
  | embedded {room filled : Nat} {ellipsis : Bool} {digits rest : Bytes} (group : HexGroup digits)
      (fits : ¬ ((!ellipsis && filled != 12) || decide (16 < filled + 4)) = true)
      (valid : validIPv4 (digits ++ 46 :: rest) = true)
      (finished : ipv6Finish [] (filled + 4) ellipsis = true) :
      Groups (room + 1) (digits ++ 46 :: rest) filled ellipsis
  | gapLast {room filled : Nat} {digits : Bytes} (group : HexGroup digits)
      (finished : ipv6Finish [] (filled + 2) true = true) :
      Groups (room + 1) (digits ++ [58, 58]) filled false
  | gap {room filled : Nat} {digits rest : Bytes} (group : HexGroup digits) (more : rest ≠ [])
      (groups : Groups room rest (filled + 2) true) :
      Groups (room + 1) (digits ++ 58 :: 58 :: rest) filled false
  | colon {room filled : Nat} {ellipsis : Bool} {digits rest : Bytes} (group : HexGroup digits)
      (more : rest ≠ []) (single : rest.head? ≠ some 58)
      (groups : Groups room rest (filled + 2) ellipsis) :
      Groups (room + 1) (digits ++ 58 :: rest) filled ellipsis

variable {s digits : Bytes} {room filled : Nat} {ellipsis : Bool}

theorem hexGroup_takeWhile
    (h : ¬ ((s.takeWhile isHexDigit).length = 0 ∨ 4 < (s.takeWhile isHexDigit).length)) :
    HexGroup (s.takeWhile isHexDigit) :=
  ⟨List.all_eq_true.mp List.all_takeWhile, by omega, by omega⟩

theorem append_of_drop {tail : Bytes} (h : s.drop (s.takeWhile isHexDigit).length = tail) :
    s.takeWhile isHexDigit ++ tail = s := by
  have hsplit := List.take_append_drop (s.takeWhile isHexDigit).length s
  rw [h, ← List.prefix_iff_eq_take.mp (List.takeWhile_prefix isHexDigit)] at hsplit
  exact hsplit

theorem groups_of_ipv6Groups (h : ipv6Groups room s filled ellipsis = true) :
    Groups room s filled ellipsis := by
  fun_induction ipv6Groups room s filled ellipsis with
  | case1 s filled ellipsis =>
    have hs : s = [] := by
      simp only [ipv6Finish, Bool.and_eq_true, List.isEmpty_iff] at h
      exact h.1
    subst hs
    exact .full h
  | case3 room s filled ellipsis digits hdigits htail =>
    have hs : s.takeWhile isHexDigit ++ [] = s := append_of_drop htail
    rw [← hs, List.append_nil]
    exact .last (hexGroup_takeWhile hdigits) h
  | case5 room s filled ellipsis digits hdigits rest htail hfits =>
    have hs : s.takeWhile isHexDigit ++ 46 :: rest = s := append_of_drop htail
    rw [Bool.and_eq_true] at h
    have hvalid := h.1
    rw [← hs] at hvalid ⊢
    exact .embedded (hexGroup_takeWhile hdigits) hfits hvalid h.2
  | case8 room s filled ellipsis digits hdigits rest htail hfirst hrest =>
    have hs : s.takeWhile isHexDigit ++ 58 :: 58 :: rest = s := append_of_drop htail
    rw [Bool.not_eq_true] at hfirst
    rw [List.isEmpty_iff] at hrest
    rw [← hs, hfirst, hrest]
    exact .gapLast (hexGroup_takeWhile hdigits) h
  | case9 room s filled ellipsis digits hdigits rest htail hfirst hrest ih =>
    have hs : s.takeWhile isHexDigit ++ 58 :: 58 :: rest = s := append_of_drop htail
    rw [Bool.not_eq_true] at hfirst
    rw [List.isEmpty_iff] at hrest
    rw [← hs, hfirst]
    exact .gap (hexGroup_takeWhile hdigits) hrest (ih h)
  | case10 room s filled ellipsis digits hdigits rest hmore hsingle htail ih =>
    have hs : s.takeWhile isHexDigit ++ 58 :: rest = s := append_of_drop htail
    have hhead : rest.head? ≠ some 58 := by
      intro hhead
      obtain ⟨others, hothers⟩ := List.head?_eq_some_iff.mp hhead
      exact hsingle others hothers
    rw [← hs]
    exact .colon (hexGroup_takeWhile hdigits) hmore hhead (ih h)
  | case2 | case4 | case6 | case7 | case11 => exact absurd h Bool.false_ne_true

theorem HexGroup.size (h : HexGroup digits) : ¬ (digits.length = 0 ∨ 4 < digits.length) := by
  have hbounds := h.2
  omega

theorem takeWhile_group {tail : Bytes} (h : HexGroup digits)
    (htail : ∀ byte, tail.head? = some byte → isHexDigit byte = false) :
    (digits ++ tail).takeWhile isHexDigit = digits := by
  rw [List.takeWhile_append_of_pos h.1]
  cases tail with
  | nil => simp
  | cons byte rest => rw [List.takeWhile_cons_of_neg (by simp [htail byte rfl]), List.append_nil]

theorem ipv6Groups_of_groups (h : Groups room s filled ellipsis) :
    ipv6Groups room s filled ellipsis = true := by
  induction h with
  | full finished => exact finished
  | @last room filled ellipsis digits group finished =>
    have hdigits : (digits ++ []).takeWhile isHexDigit = digits := takeWhile_group group nofun
    rw [List.append_nil] at hdigits
    simp only [ipv6Groups, hdigits, List.drop_length]
    rw [if_neg group.size]
    exact finished
  | @embedded room filled ellipsis digits rest group fits valid finished =>
    have hdigits : (digits ++ 46 :: rest).takeWhile isHexDigit = digits :=
      takeWhile_group group (by simp [isHexDigit, isDigit])
    simp only [ipv6Groups, hdigits, List.drop_left]
    rw [if_neg group.size, if_neg fits, valid, finished]
    rfl
  | @gapLast room filled digits group finished =>
    have hdigits : (digits ++ [58, 58]).takeWhile isHexDigit = digits :=
      takeWhile_group group (by simp [isHexDigit, isDigit])
    simp only [ipv6Groups, hdigits, List.drop_left]
    rw [if_neg group.size]
    exact finished
  | @gap room filled digits rest group more groups ih =>
    have hdigits : (digits ++ 58 :: 58 :: rest).takeWhile isHexDigit = digits :=
      takeWhile_group group (by simp [isHexDigit, isDigit])
    simp only [ipv6Groups, hdigits, List.drop_left]
    rw [if_neg group.size, if_neg Bool.false_ne_true, if_neg (by simpa using more)]
    exact ih
  | @colon room filled ellipsis digits rest group more single groups ih =>
    have hdigits : (digits ++ 58 :: rest).takeWhile isHexDigit = digits :=
      takeWhile_group group (by simp [isHexDigit, isDigit])
    simp only [ipv6Groups, hdigits, List.drop_left]
    rw [if_neg group.size]
    cases rest with
    | nil => exact absurd rfl more
    | cons byte others =>
      have hbyte : byte ≠ 58 := fun hbyte => single (congrArg some hbyte)
      -- the next byte is no colon, so the arm of a single colon is taken
      split
      all_goals simp_all

/-! ## What the groups have in common -/

/-- The bytes of an address without its zone. -/
def AddressByte (byte : UInt8) : Prop :=
  isHexDigit byte = true ∨ byte = 46 ∨ byte = 58

theorem addressByte_of_digit {byte : UInt8} (h : isDigit byte = true ∨ byte = 46) :
    AddressByte byte := by
  rcases h with h | h
  · exact .inl (by simp [isHexDigit, h])
  · exact .inr (.inl h)

theorem Groups.bytes (h : Groups room s filled ellipsis) : ∀ byte ∈ s, AddressByte byte := by
  have hgroup {digits rest : Bytes} (group : HexGroup digits)
      (hrest : ∀ byte ∈ rest, AddressByte byte) : ∀ byte ∈ digits ++ rest, AddressByte byte := by
    intro byte hbyte
    rcases List.mem_append.mp hbyte with hin | hin
    · exact .inl (group.1 byte hin)
    · exact hrest byte hin
  have hcolon : AddressByte 58 := .inr (.inr rfl)
  induction h with
  | full => exact nofun
  | last group => exact fun byte hbyte => .inl (group.1 byte hbyte)
  | embedded group fits valid =>
    exact fun byte hbyte => addressByte_of_digit (bytes_of_ipv4Fields valid byte hbyte)
  | gapLast group => exact hgroup group (by simp [hcolon])
  | gap group more groups ih =>
    exact hgroup group (List.forall_mem_cons.mpr ⟨hcolon, List.forall_mem_cons.mpr ⟨hcolon, ih⟩⟩)
  | colon group more single groups ih =>
    exact hgroup group (List.forall_mem_cons.mpr ⟨hcolon, ih⟩)

theorem getLast?_append_cons {left rest : Bytes} {byte : UInt8} (h : rest ≠ []) :
    (left ++ byte :: rest).getLast? = rest.getLast? := by
  rw [List.getLast?_append, List.getLast?_cons]
  simp [List.getLast?_eq_getLast_of_ne_nil h]

theorem Groups.no_trailing_dot (h : Groups room s filled ellipsis) : s.getLast? ≠ some 46 := by
  induction h with
  | full => simp
  | last group =>
    intro hlast
    have hdot := group.1 46 (List.mem_of_getLast? hlast)
    revert hdot
    decide
  | @embedded room filled ellipsis digits rest group fits valid =>
    intro hlast
    obtain ⟨others, hothers⟩ := List.getLast?_eq_some_iff.mp hlast
    rw [hothers, validIPv4, ipv4Fields_concat_dot] at valid
    exact absurd valid Bool.false_ne_true
  | gapLast group => simp
  | @gap room filled digits rest group more groups ih =>
    have hlast : ([] ++ 58 :: rest).getLast? = rest.getLast? := getLast?_append_cons more
    rw [getLast?_append_cons (List.cons_ne_nil _ _)]
    exact hlast ▸ ih
  | colon group more single groups ih => rwa [getLast?_append_cons more]

theorem isHexDigit_lowerByte (byte : UInt8) : isHexDigit (lowerByte byte) = isHexDigit byte := by
  revert byte
  exact forall_byte (by decide)

theorem HexGroup.lower (h : HexGroup digits) : HexGroup (digits.map lowerByte) := by
  refine ⟨?_, ?_⟩
  · rw [List.forall_mem_map]
    intro byte hbyte
    rw [isHexDigit_lowerByte]
    exact h.1 byte hbyte
  · rw [List.length_map]
    exact h.2

theorem lowerByte_of_digit (byte : UInt8) (h : isDigit byte = true ∨ byte = 46) :
    lowerByte byte = byte := by
  revert h
  revert byte
  exact forall_byte (by decide)

theorem lower_of_validIPv4 (h : validIPv4 s = true) : s.map lowerByte = s :=
  (List.map_congr_left fun byte hbyte =>
    lowerByte_of_digit byte (bytes_of_ipv4Fields h byte hbyte)).trans (List.map_id s)

theorem Groups.lower (h : Groups room s filled ellipsis) :
    Groups room (s.map lowerByte) filled ellipsis := by
  induction h with
  | full finished => exact .full finished
  | last group finished => exact .last group.lower finished
  | embedded group fits valid finished =>
    rw [lower_of_validIPv4 valid]
    exact .embedded group fits valid finished
  | gapLast group finished =>
    rw [List.map_append]
    exact .gapLast group.lower finished
  | gap group more groups ih =>
    rw [List.map_append]
    exact .gap group.lower (by simpa using more) ih
  | @colon room filled ellipsis digits rest group more single groups ih =>
    have hhead : (rest.map lowerByte).head? ≠ some 58 := by
      rw [List.head?_map]
      intro hhead
      obtain ⟨byte, hbyte, hlower⟩ := Option.map_eq_some_iff.mp hhead
      have hcolon : byte = 58 := by
        clear hbyte hhead
        revert hlower
        revert byte
        exact forall_byte (by decide)
      exact single (hcolon ▸ hbyte)
    rw [List.map_append]
    exact .colon group.lower (by simpa using more) hhead ih

theorem HexGroup.no_colon (h : HexGroup digits) : digits.count 58 = 0 := by
  rw [List.count_eq_zero]
  intro hmem
  exact absurd (h.1 58 hmem) (by decide)

/-- Without a `::` there are as many colons as the groups that are left need;
with one there are two. -/
theorem Groups.colons (h : Groups room s filled ellipsis) (hellipsis : ellipsis = false) :
    12 ≤ filled + 2 * s.count 58 ∨ 2 ≤ s.count 58 := by
  induction h with
  | full finished =>
    subst hellipsis
    simp [ipv6Finish] at finished
    omega
  | last group finished =>
    subst hellipsis
    simp [ipv6Finish] at finished
    omega
  | embedded group fits valid finished =>
    subst hellipsis
    simp at fits
    omega
  | gapLast group finished =>
    right
    rw [List.count_append, group.no_colon]
    decide
  | gap group more groups ih =>
    right
    rw [List.count_append, group.no_colon, List.count_cons_self, List.count_cons_self]
    omega
  | colon group more single groups ih =>
    have hrest := ih hellipsis
    rw [List.count_append, group.no_colon, List.count_cons_self]
    omega

/-! ## Addresses with a zone -/

/-- An IPv6 address without a zone. -/
inductive IPv6Text : Bytes → Prop
  | unspecified : IPv6Text [58, 58]
  | leading {rest : Bytes} (groups : Groups 8 rest 0 true) : IPv6Text (58 :: 58 :: rest)
  | plain {s : Bytes} (groups : Groups 8 s 0 false) : IPv6Text s

theorem Groups.starts (h : Groups (room + 1) s filled ellipsis) :
    ∃ byte rest, s = byte :: rest ∧ byte ≠ 58 := by
  have hgroup {digits : Bytes} (group : HexGroup digits) (rest : Bytes) :
      ∃ byte others, digits ++ rest = byte :: others ∧ byte ≠ 58 := by
    cases digits with
    | nil => exact absurd rfl group.2.1
    | cons byte others =>
      refine ⟨byte, others ++ rest, rfl, ?_⟩
      rintro rfl
      exact absurd (group.1 58 List.mem_cons_self) (by decide)
  cases h with
  | last group => simpa using hgroup group []
  | embedded group => exact hgroup group _
  | gapLast group => exact hgroup group _
  | gap group => exact hgroup group _
  | colon group => exact hgroup group _

/-- The switch of `parseIPv6` on a leading `::`. -/
theorem ipv6Text_iff (s : Bytes) :
    (match s with
      | 58 :: 58 :: rest => rest.isEmpty || ipv6Groups 8 rest 0 true
      | _ => ipv6Groups 8 s 0 false) = true ↔ IPv6Text s := by
  constructor
  · intro h
    split at h
    next rest =>
      rw [Bool.or_eq_true] at h
      rcases h with hempty | hgroups
      · rw [List.isEmpty_iff.mp hempty]
        exact .unspecified
      · exact .leading (groups_of_ipv6Groups hgroups)
    next => exact .plain (groups_of_ipv6Groups h)
  · intro h
    cases h with
    | unspecified => rfl
    | @leading rest groups =>
      show (rest.isEmpty || ipv6Groups 8 rest 0 true) = true
      rw [ipv6Groups_of_groups groups, Bool.or_true]
    | plain groups =>
      obtain ⟨byte, others, rfl, hbyte⟩ := groups.starts
      split
      next hsame => exact absurd (List.cons.inj hsame).1 hbyte
      next => exact ipv6Groups_of_groups groups

theorem IPv6Text.bytes (h : IPv6Text s) : ∀ byte ∈ s, AddressByte byte := by
  have hcolon : AddressByte 58 := .inr (.inr rfl)
  cases h with
  | unspecified => simp [hcolon]
  | leading groups =>
    exact List.forall_mem_cons.mpr ⟨hcolon, List.forall_mem_cons.mpr ⟨hcolon, groups.bytes⟩⟩
  | plain groups => exact groups.bytes

theorem IPv6Text.no_trailing_dot (h : IPv6Text s) : s.getLast? ≠ some 46 := by
  cases h with
  | unspecified => decide
  | @leading rest groups =>
    obtain ⟨byte, others, rfl, -⟩ := groups.starts
    have hlast : ([58] ++ 58 :: byte :: others).getLast? = (byte :: others).getLast? :=
      getLast?_append_cons (List.cons_ne_nil _ _)
    exact hlast ▸ groups.no_trailing_dot
  | plain groups => exact groups.no_trailing_dot

theorem IPv6Text.colons (h : IPv6Text s) : 2 ≤ s.count 58 := by
  cases h with
  | unspecified => decide
  | leading groups =>
    rw [List.count_cons_self, List.count_cons_self]
    omega
  | plain groups =>
    have hcount := groups.colons rfl
    omega

theorem IPv6Text.lower (h : IPv6Text s) : IPv6Text (s.map lowerByte) := by
  cases h with
  | unspecified => exact .unspecified
  | leading groups => exact .leading groups.lower
  | plain groups => exact .plain groups.lower

/-- `parseIPv6` accepts an address, with a zone that is not empty if there is
one. -/
theorem validIPv6_iff (s : Bytes) :
    validIPv6 s = true ↔
      IPv6Text s ∨ ∃ address zone, s = address ++ 37 :: zone ∧ zone ≠ [] ∧ IPv6Text address := by
  have hpercent {address : Bytes} (h : IPv6Text address) : (37 : UInt8) ∉ address := by
    intro hmem
    exact absurd (h.bytes 37 hmem) (by unfold AddressByte; decide)
  unfold validIPv6
  constructor
  · intro h
    cases hcut : cut s 37 with
    | none =>
      simp only [hcut, Bool.true_and] at h
      exact .inl ((ipv6Text_iff s).mp h)
    | some parts =>
      obtain ⟨address, zone⟩ := parts
      simp only [hcut, Bool.and_eq_true, Bool.not_eq_true', List.isEmpty_eq_false_iff] at h
      exact .inr ⟨address, zone, (cut_eq_some.mp hcut).1, h.1, (ipv6Text_iff address).mp h.2⟩
  · rintro (h | ⟨address, zone, rfl, hzone, h⟩)
    · rw [cut_eq_none.mpr (hpercent h)]
      exact (ipv6Text_iff s).mpr h
    · rw [cut_append_cons (hpercent h)]
      simp only [Bool.and_eq_true, Bool.not_eq_true', List.isEmpty_eq_false_iff]
      exact ⟨hzone, (ipv6Text_iff address).mpr h⟩

end GGateway.Text
