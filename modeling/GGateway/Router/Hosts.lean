import GGateway.Router.Pattern
import GGateway.Text.Address
import GGateway.Text.Trim

/-!
# Normalizing a host twice

`NormalizeRequestHost` splits a port off, maps to lower case and drops one dot.
What is left never has a capital letter, a port or a dot at its end.  It need
not be accepted again, though: the checks on the whole authority are made before
the port and the dot are gone.

* `hostForm_of_splitAuthority`: the host part has no colon, or is an address;
* `Normalized.validAddr_iff`: the address is still one unless its zone was a dot;
* `normalizeRequestHost_again`: exactly when the result normalizes to itself.
-/

namespace GGateway.Router

open Text

/-! ## The host part -/

/-- The first dot, colon or percent sign, which decides the grammar of an
address. -/
def firstMark (host : Bytes) : Option UInt8 :=
  host.find? ([46, 58, 37].contains ·)

/-- What `splitAuthority` lets through: a name, which has no colon and does not
start with a bracket, or an IPv6 address. -/
inductive HostForm : Bytes → Prop
  | named {host : Bytes} (portless : (58 : UInt8) ∉ host) (unbracketed : host.head? ≠ some 91) :
      HostForm host
  | address {host : Bytes} (valid : validIPv6 host = true) (mark : firstMark host = some 58) :
      HostForm host

variable {host authority : Bytes} {byte : UInt8}

theorem hostForm_of_validAddr (h : validAddr host = true) (hbracket : host.head? ≠ some 91) :
    HostForm host := by
  unfold validAddr at h
  split at h
  next =>
    -- a dotted address has no colon
    refine .named (fun hcolon => ?_) hbracket
    rcases bytes_of_ipv4Fields h 58 hcolon with hdigit | hdot
    · exact absurd hdigit (by decide)
    · exact absurd hdot (by decide)
  next hmark => exact .address h hmark
  next => exact absurd h Bool.false_ne_true

theorem validAddr_of_mark (h : firstMark host = some 58) : validAddr host = validIPv6 host := by
  unfold firstMark at h
  rw [validAddr, h]
  rfl

theorem mem_slice {s : Bytes} {start stop : Nat} (h : byte ∈ slice s start stop) :
    byte ∈ s.drop start := by
  rw [slice, List.drop_take] at h
  exact List.mem_of_mem_take h

theorem not_mem_of_not_isSome {s : Bytes} (h : ¬ (indexByte s byte).isSome = true) : byte ∉ s := by
  rw [Bool.not_eq_true, Option.isSome_eq_false_iff, Option.isNone_iff_eq_none] at h
  exact indexByte_eq_none.mp h

/-- What `net.SplitHostPort` leaves as the host. -/
theorem host_of_splitHostPort {port : Bytes} (h : splitHostPort authority = some (host, port)) :
    (91 : UInt8) ∉ host ∧ (¬ hasPrefix authority [91] = true → (58 : UInt8) ∉ host) := by
  unfold splitHostPort at h
  cases hlast : lastIndexByte authority 58 with
  | none => exact nomatch hlast ▸ h
  | some colon =>
    simp only [hlast] at h
    by_cases hopen : hasPrefix authority [91] = true
    · rw [if_pos hopen] at h
      split at h
      · contradiction
      split_ifs at h with hcolon hbracket hclose
      cases h
      constructor
      · exact fun hmem => not_mem_of_not_isSome hbracket (mem_slice hmem)
      · exact fun hunopened => absurd hopen hunopened
    · rw [if_neg hopen] at h
      split_ifs at h with hcolon hbracket hclose
      cases h
      constructor
      · exact fun hmem => not_mem_of_not_isSome hbracket (List.mem_of_mem_take hmem)
      · exact fun _ => not_mem_of_not_isSome hcolon

/-- The two ways through `splitAuthority`: the authority is the host, or a port
was split off. -/
theorem splitAuthority_cases (h : splitAuthority authority = .ok host) :
    (¬ hasPrefix authority [91] = true ∧ host = authority ∧
        ((58 : UInt8) ∉ authority ∨ validAddr authority = true)) ∨
      ∃ port, splitHostPort authority = some (host, port) ∧
        (hasPrefix authority [91] = true → validAddr host = true) := by
  unfold splitAuthority at h
  by_cases hbracket : hasPrefix authority [91] = true
  · right
    simp only [hbracket, Bool.not_true, Bool.and_false, Bool.false_eq_true, if_false, Bool.true_or,
      if_true, Bool.true_and, Bool.not_eq_true'] at h
    cases hsplit : splitHostPort authority with
    | none => exact nomatch hsplit ▸ h
    | some parts =>
      simp only [hsplit] at h
      split_ifs at h with hvalid
      split at h
      · contradiction
      split_ifs at h with hrange
      cases h
      exact ⟨parts.2, rfl, fun _ => by simpa using hvalid⟩
  · simp only [hbracket, Bool.not_false, Bool.and_true, Bool.false_or, Bool.false_and,
      Bool.false_eq_true, if_false, decide_eq_true_eq, beq_iff_eq] at h
    split_ifs at h with hmany hvalid hone
    · cases h
      exact .inl ⟨hbracket, rfl, .inr hvalid⟩
    · right
      cases hsplit : splitHostPort authority with
      | none => exact nomatch hsplit ▸ h
      | some parts =>
        simp only [hsplit] at h
        split at h
        · contradiction
        split_ifs at h with hrange
        cases h
        exact ⟨parts.2, rfl, fun hopen => absurd hopen hbracket⟩
    · cases h
      refine .inl ⟨hbracket, rfl, .inl ?_⟩
      rw [← List.count_eq_zero]
      unfold countByte at hmany hone
      omega

theorem hostForm_of_splitAuthority (h : splitAuthority authority = .ok host) : HostForm host := by
  rcases splitAuthority_cases h with ⟨hbracket, rfl, hcolon | hvalid⟩ | ⟨port, hsplit, hvalid⟩
  · exact .named hcolon fun hhead => hbracket (hasPrefix_singleton.mpr hhead)
  · exact hostForm_of_validAddr hvalid fun hhead => hbracket (hasPrefix_singleton.mpr hhead)
  · obtain ⟨hopen, hcolon⟩ := host_of_splitHostPort hsplit
    have hhead : host.head? ≠ some 91 := fun hhead => hopen (List.mem_of_head? hhead)
    by_cases hbracket : hasPrefix authority [91] = true
    · exact hostForm_of_validAddr (hvalid hbracket) hhead
    · exact .named (hcolon hbracket) hhead

/-! ## The second pass -/

theorem splitAuthority_named (hcolon : (58 : UInt8) ∉ host) (hbracket : host.head? ≠ some 91) :
    splitAuthority host = .ok host := by
  have hcount : countByte host 58 = 0 := List.count_eq_zero.mpr hcolon
  have hopen : hasPrefix host [91] = false := by
    rw [← Bool.not_eq_true]
    exact fun h => hbracket (hasPrefix_singleton.mp h)
  simp [splitAuthority, hcount, hopen]

theorem splitAuthority_address (hcount : 2 ≤ host.count 58) (hbracket : host.head? ≠ some 91) :
    splitAuthority host = if validAddr host then .ok host else .error (.malformed host) := by
  have hmany : decide (1 < countByte host 58) = true := decide_eq_true hcount
  have hopen : hasPrefix host [91] = false := by
    rw [← Bool.not_eq_true]
    exact fun h => hbracket (hasPrefix_singleton.mp h)
  simp only [splitAuthority, hmany, hopen, Bool.not_false, Bool.and_true, if_true]

theorem firstMark_append_percent {address rest : Bytes}
    (h : firstMark (address ++ 37 :: rest) = some 58) : firstMark address = some 58 := by
  unfold firstMark at h ⊢
  rw [List.find?_append] at h
  cases hfound : address.find? ([46, 58, 37].contains ·) with
  | none =>
    rw [hfound, List.find?_cons_of_pos rfl] at h
    exact absurd h (by decide)
  | some mark =>
    rw [hfound] at h
    exact h

theorem firstMark_append {address : Bytes} (h : firstMark address = some 58) (rest : Bytes) :
    firstMark (address ++ rest) = some 58 := by
  unfold firstMark at h ⊢
  rw [List.find?_append, h]
  rfl

theorem firstMark_lower {address : Bytes} (h : firstMark address = some 58) :
    firstMark (address.map lowerByte) = some 58 := by
  have hmarks : (fun byte => [46, 58, 37].contains (lowerByte byte)) =
      fun byte : UInt8 => [46, 58, 37].contains byte := by
    funext byte
    revert byte
    exact forall_byte (by decide)
  unfold firstMark at h ⊢
  rw [List.find?_map]
  show (address.find? fun byte => [46, 58, 37].contains (lowerByte byte)).map lowerByte = some 58
  rw [hmarks, h]
  rfl

theorem bounds_of_addressByte (byte : UInt8) (h : AddressByte byte) : byte < 0x80 ∧ byte ≠ 91 := by
  revert h
  unfold AddressByte
  revert byte
  exact forall_byte (by decide)

/-- Drop one dot at the end. -/
def trimDot (host : Bytes) : Bytes :=
  if hasSuffix host [dot] then host.dropLast else host

/-- What is left of an IPv6 address in lower case: the address, and its zone
without one dot. -/
inductive Normalized : Bytes → Prop
  | plain {address : Bytes} (text : IPv6Text address) (mark : firstMark address = some 58) :
      Normalized address
  | zoned {address : Bytes} (text : IPv6Text address) (mark : firstMark address = some 58)
      (zone : Bytes) : Normalized (address ++ 37 :: zone)

variable (tables : UnicodeTables)

theorem trimDot_zoned {address zone : Bytes} (htext : IPv6Text address)
    (hzone : zone ≠ []) : trimDot (toLower tables (address ++ 37 :: zone)) =
      address.map lowerByte ++ 37 :: trimDot (toLower tables zone) := by
  have hlower : toLower tables (address ++ 37 :: zone) =
      address.map lowerByte ++ 37 :: toLower tables zone := by
    rw [toLower_append_ascii fun byte hbyte => (bounds_of_addressByte byte (htext.bytes byte hbyte)).1,
      toLower_cons_ascii (by decide)]
    rfl
  have hne : toLower tables zone ≠ [] := toLower_ne_nil hzone
  obtain ⟨first, rest, hwritten⟩ := List.exists_cons_of_ne_nil hne
  rw [hlower, hwritten]
  simp only [trimDot, hasSuffix_singleton, List.getLast?_append, List.getLast?_cons,
    Option.getD_some, Option.some_or]
  split_ifs
  · -- the dot belongs to the zone
    rw [List.dropLast_append_of_ne_nil (List.cons_ne_nil _ _),
      List.dropLast_cons_of_ne_nil (List.cons_ne_nil _ _)]
  · rfl

theorem normalized_of_address (hvalid : validIPv6 host = true)
    (hmark : firstMark host = some 58) : Normalized (trimDot (toLower tables host)) := by
  rcases (validIPv6_iff host).mp hvalid with htext | ⟨address, zone, rfl, hzone, htext⟩
  · have hlower : toLower tables host = host.map lowerByte :=
      toLower_ascii tables fun byte hbyte => (bounds_of_addressByte byte (htext.bytes byte hbyte)).1
    have hdot : ¬ hasSuffix (host.map lowerByte) [dot] = true := by
      rw [hasSuffix_singleton]
      exact htext.lower.no_trailing_dot
    rw [hlower, trimDot, if_neg hdot]
    exact .plain htext.lower (firstMark_lower hmark)
  · rw [trimDot_zoned tables htext hzone]
    exact .zoned htext.lower (firstMark_lower (firstMark_append_percent hmark)) _

theorem Normalized.colons (h : Normalized host) : 2 ≤ host.count 58 := by
  cases h with
  | plain text => exact text.colons
  | zoned text mark zone =>
    have hcount := text.colons
    rw [List.count_append]
    omega

theorem Normalized.unbracketed (h : Normalized host) : host.head? ≠ some 91 := by
  have haddress {address : Bytes} (text : IPv6Text address) (rest : Bytes) :
      (address ++ rest).head? ≠ some 91 := by
    have hcount := text.colons
    cases address with
    | nil => simp at hcount
    | cons byte others =>
      intro hhead
      obtain rfl : byte = 91 := Option.some.inj hhead
      exact (bounds_of_addressByte 91 (text.bytes 91 List.mem_cons_self)).2 rfl
  cases h with
  | plain text =>
    have hhead := haddress text []
    rwa [List.append_nil] at hhead
  | zoned text mark zone => exact haddress text _

/-- An address is still one unless nothing is left of its zone. -/
theorem Normalized.validAddr_iff (h : Normalized host) :
    validAddr host = true ↔ ∀ address, cut host 37 ≠ some (address, []) := by
  have hpercent {address : Bytes} (text : IPv6Text address) : (37 : UInt8) ∉ address := by
    intro hmem
    exact absurd (text.bytes 37 hmem) (by unfold AddressByte; decide)
  cases h with
  | plain text mark =>
    rw [validAddr_of_mark mark, cut_eq_none.mpr (hpercent text)]
    exact iff_of_true ((validIPv6_iff host).mpr (.inl text)) nofun
  | @zoned address text mark zone =>
    rw [validAddr_of_mark (firstMark_append mark _), cut_append_cons (hpercent text)]
    constructor
    · intro hvalid other hcut
      cases hcut
      rcases (validIPv6_iff _).mp hvalid with htext | ⟨before, after, hsame, hafter, htext⟩
      · exact hpercent htext (List.mem_append_right _ List.mem_cons_self)
      have hcuts := congrArg (cut · 37) hsame
      rw [cut_append_cons (hpercent text), cut_append_cons (hpercent htext)] at hcuts
      exact hafter (Prod.mk.inj (Option.some.inj hcuts)).2.symm
    · intro hzone
      refine (validIPv6_iff _).mpr (.inr ⟨address, zone, rfl, ?_, text⟩)
      rintro rfl
      exact hzone address rfl

/-! ## The result -/

/-- The result of an accepted authority: its host part in lower case without one
dot at the end, not empty and without a second one. -/
theorem normalizeRequestHost_eq_ok_iff {tables : UnicodeTables} :
    normalizeRequestHost tables authority = .ok host ↔
      (authority ≠ [] ∧ trimSpace authority = authority) ∧
      ∃ parsed, splitAuthority authority = .ok parsed ∧ trimDot (toLower tables parsed) = host ∧
        host ≠ [] ∧ ¬ hasSuffix host [dot] = true := by
  unfold normalizeRequestHost
  by_cases hspaced : authority = [] ∨ trimSpace authority ≠ authority
  · rw [if_pos hspaced]
    have hrefused : ¬ (authority ≠ [] ∧ trimSpace authority = authority) := by
      rcases hspaced with h | h
      · exact fun hboth => hboth.1 h
      · exact fun hboth => h hboth.2
    exact iff_of_false nofun fun h => hrefused h.1
  · rw [if_neg hspaced]
    rw [not_or, not_not] at hspaced
    cases hsplit : splitAuthority authority with
    | error cause => exact iff_of_false nofun fun ⟨_, _, hparsed, _⟩ => nomatch hparsed
    | ok parsed =>
      show (if trimDot (toLower tables parsed) = [] ∨
        hasSuffix (trimDot (toLower tables parsed)) [dot] = true then _ else _) = _ ↔ _
      by_cases hlabel : trimDot (toLower tables parsed) = [] ∨
          hasSuffix (trimDot (toLower tables parsed)) [dot] = true
      · rw [if_pos hlabel]
        refine iff_of_false nofun ?_
        rintro ⟨_, other, hother, rfl, hne, hdot⟩
        cases hother
        rcases hlabel with h | h
        · exact hne h
        · exact hdot h
      · rw [if_neg hlabel]
        rw [not_or] at hlabel
        constructor
        · intro h
          cases h
          exact ⟨hspaced, parsed, rfl, rfl, hlabel.1, hlabel.2⟩
        · rintro ⟨_, other, hother, rfl, _⟩
          cases hother
          rfl

theorem lowered_trimDot (parsed : Bytes) :
    Lowered tables (trimDot (toLower tables parsed)) := by
  have hlowered := lowered_toLower tables parsed
  unfold trimDot
  split
  next hdot =>
    obtain ⟨before, hbefore⟩ := List.getLast?_eq_some_iff.mp (hasSuffix_singleton.mp hdot)
    rw [hbefore] at hlowered ⊢
    rw [List.dropLast_concat]
    exact hlowered.of_concat (by decide)
  next => exact hlowered

theorem mem_of_mem_trimDot (h : byte ∈ trimDot host) : byte ∈ host := by
  unfold trimDot at h
  split at h
  · exact List.mem_of_mem_dropLast h
  · exact h

theorem head?_of_trimDot (h : (trimDot host).head? = some byte) : host.head? = some byte := by
  unfold trimDot at h
  split at h
  · cases host with
    | nil => exact h
    | cons first rest =>
      cases rest with
      | nil => simp at h
      | cons second others => exact h
  · exact h

/-- What the host part looks like once it is normalized: a name without a colon
or an address in lower case. -/
inductive ResultForm : Bytes → Prop
  | named {host : Bytes} (portless : (58 : UInt8) ∉ host) (unbracketed : host.head? ≠ some 91) :
      ResultForm host
  | address {host : Bytes} (normalized : Normalized host) : ResultForm host

theorem resultForm_of_hostForm {tables : UnicodeTables} (htables : tables.Lowers) {parsed : Bytes}
    (h : HostForm parsed) : ResultForm (trimDot (toLower tables parsed)) := by
  cases h with
  | named portless unbracketed =>
    constructor
    · intro hmem
      exact portless ((mem_toLower_iff htables (by decide) parsed).mp (mem_of_mem_trimDot hmem))
    · intro hhead
      exact unbracketed (head?_toLower htables (by decide) (head?_of_trimDot hhead))
  | address valid mark => exact .address (normalized_of_address tables valid mark)

/-- `net.SplitHostPort` finds no port in the result. -/
theorem ResultForm.splitHostPort_eq_none (h : ResultForm host) : splitHostPort host = none := by
  unfold splitHostPort
  cases hlast : lastIndexByte host 58 with
  | none => rfl
  | some colon =>
    obtain ⟨before, after, rfl, hlength, hmem⟩ := exists_of_lastIndexByte hlast
    cases h with
    | named portless => exact absurd (List.mem_append_right _ List.mem_cons_self) portless
    | address normalized =>
      have hopen : ¬ hasPrefix (before ++ 58 :: after) [91] = true := fun hwithin =>
        normalized.unbracketed (hasPrefix_singleton.mp hwithin)
      -- there is a colon before the last one
      have hcolon : (58 : UInt8) ∈ before := by
        have hcount := normalized.colons
        rw [List.count_append, List.count_cons_self, List.count_eq_zero.mpr hmem] at hcount
        exact List.count_pos_iff.mp (by omega)
      have hsome : (indexByte ((before ++ 58 :: after).take colon) 58).isSome = true := by
        rw [← hlength, List.take_left, Option.isSome_iff_ne_none]
        exact fun hnone => indexByte_eq_none.mp hnone hcolon
      dsimp only
      rw [if_neg hopen, if_pos hsome]

/-- A result that is not empty, has no dot at its end and is in lower case. -/
theorem ResultForm.again_iff (hform : ResultForm host) {tables : UnicodeTables}
    (hlower : toLower tables host = host) (hne : host ≠ []) (hdot : ¬hasSuffix host [dot] = true) :
    normalizeRequestHost tables host = .ok host ↔ trimSpace host = host ∧
      ((58 : UInt8) ∈ host → ∀ address, cut host 37 ≠ some (address, [])) := by
  have hkept : trimDot (toLower tables host) = host := by
    rw [hlower, trimDot, if_neg hdot]
  rw [normalizeRequestHost_eq_ok_iff]
  cases hform with
  | named portless unbracketed =>
    have hagain := splitAuthority_named portless unbracketed
    constructor
    · exact fun hok => ⟨hok.1.2, fun hcolon => absurd hcolon portless⟩
    · exact fun hok => ⟨⟨hne, hok.1⟩, host, hagain, hkept, hne, hdot⟩
  | address normalized =>
    have hagain := splitAuthority_address normalized.colons normalized.unbracketed
    have hcolon : (58 : UInt8) ∈ host :=
      List.count_pos_iff.mp (lt_of_lt_of_le Nat.zero_lt_two normalized.colons)
    rw [← normalized.validAddr_iff]
    constructor
    · rintro ⟨⟨-, htrim⟩, other, hother, -⟩
      refine ⟨htrim, fun _ => ?_⟩
      by_contra hvalid
      rw [hagain, if_neg hvalid] at hother
      exact nomatch hother
    · rintro ⟨htrim, hvalid⟩
      rw [if_pos (hvalid hcolon)] at hagain
      exact ⟨⟨hne, htrim⟩, host, hagain, hkept, hne, hdot⟩

/-! ## The condition on the host part -/

theorem trimDot_lower (part : Bytes) :
    trimDot (part.map lowerByte) = (trimDot part).map lowerByte := by
  have hdot : hasSuffix (part.map lowerByte) [dot] = hasSuffix part [dot] := by
    rw [Bool.eq_iff_iff, hasSuffix_singleton, hasSuffix_singleton, List.getLast?_map]
    cases part.getLast? with
    | none => simp
    | some byte => simpa using lowerByte_eq_separator (by decide) byte
  rw [trimDot, trimDot, hdot]
  split_ifs
  · rw [List.map_dropLast]
  · rfl

/-- Nothing is left of a zone exactly if it was a dot. -/
theorem zone_iff {part : Bytes} (hascii : ∀ byte ∈ part, byte < 0x80)
    (h : validIPv6 part = true) :
    (∀ address, cut (trimDot (toLower tables part)) 37 ≠ some (address, [])) ↔
      ∀ address, cut part 37 ≠ some (address, [dot]) := by
  have hpercent {address : Bytes} (text : IPv6Text address) : (37 : UInt8) ∉ address := by
    intro hmem
    exact absurd (text.bytes 37 hmem) (by unfold AddressByte; decide)
  rcases (validIPv6_iff part).mp h with htext | ⟨address, zone, rfl, hzone, htext⟩
  · have hkept : (37 : UInt8) ∉ trimDot (toLower tables part) := by
      rw [toLower_ascii tables hascii]
      exact fun hmem => hpercent htext.lower (mem_of_mem_trimDot hmem)
    rw [cut_eq_none.mpr (hpercent htext), cut_eq_none.mpr hkept]
    simp
  · have hlower := toLower_ascii tables fun byte hbyte =>
      hascii byte (List.mem_append_right _ (List.mem_cons_of_mem _ hbyte))
    rw [trimDot_zoned tables htext hzone, cut_append_cons (hpercent htext),
      cut_append_cons (hpercent htext.lower), hlower, trimDot_lower]
    have hnil : trimDot zone = [] ↔ zone = [dot] := by
      constructor
      · intro hempty
        unfold trimDot at hempty
        split at hempty
        next hdot =>
          obtain ⟨before, rfl⟩ := List.getLast?_eq_some_iff.mp (hasSuffix_singleton.mp hdot)
          rw [List.dropLast_concat] at hempty
          rw [hempty, List.nil_append]
        next => exact absurd hempty hzone
      · rintro rfl
        rfl
    simp [hnil]

/-- The result normalizes to itself exactly when it has no white space at either end and, if
it is an address, something is left of its zone.  Of a host part in ASCII that is: there is
no white space at either end, one dot at its end apart, and its zone is not a dot.  Whether
it does or not, the result has no capital letter, no port and no dot at its end. -/
theorem normalizeRequestHost_again (htables : tables.Lowers)
    (authority host : Bytes) (h : normalizeRequestHost tables authority = .ok host) :
    (normalizeRequestHost tables host = .ok host ↔
      trimSpace host = host ∧
        ((58 : UInt8) ∈ host → ∀ address, cut host 37 ≠ some (address, []))) ∧
    (∃ part, splitAuthority authority = .ok part ∧ ((∀ byte ∈ part, byte < 0x80) →
      (normalizeRequestHost tables host = .ok host ↔
        trimSpace (trimDot part) = trimDot part ∧
          ((58 : UInt8) ∈ part → ∀ address, cut part 37 ≠ some (address, [dot]))))) ∧
    (∀ byte ∈ host, isUpperLetter byte = false) ∧
    splitHostPort host = none ∧
    hasSuffix host [dot] = false := by
  obtain ⟨-, parsed, hsplit, rfl, hne, hdot⟩ := normalizeRequestHost_eq_ok_iff.mp h
  have hlowered := lowered_trimDot tables parsed
  have hhost := hostForm_of_splitAuthority hsplit
  have hform := resultForm_of_hostForm htables hhost
  have hagain := hform.again_iff (hlowered.toLower_eq htables) hne hdot
  refine ⟨hagain, ⟨parsed, hsplit, fun hascii => ?_⟩, hlowered.no_upper htables,
    hform.splitHostPort_eq_none, by simpa using hdot⟩
  rw [hagain]
  refine and_congr ?_ ?_
  · rw [toLower_ascii tables hascii, trimDot_lower]
    exact trimSpace_lower_iff fun byte hbyte => hascii byte (mem_of_mem_trimDot hbyte)
  · cases hhost with
    | named portless =>
      have hcolon : (58 : UInt8) ∉ trimDot (toLower tables parsed) := fun hmem =>
        portless ((mem_toLower_iff htables (by decide) parsed).mp (mem_of_mem_trimDot hmem))
      simp [hcolon, portless]
    | address valid mark =>
      have hcolon : (58 : UInt8) ∈ parsed := List.mem_of_find?_eq_some mark
      have hkept := (normalized_of_address tables valid mark).colons
      have hlower : (58 : UInt8) ∈ trimDot (toLower tables parsed) :=
        List.count_pos_iff.mp (lt_of_lt_of_le Nat.zero_lt_two hkept)
      simp only [hcolon, hlower, forall_const, zone_iff tables hascii valid]

theorem normalizeRequestHost_again_plain :
    normalizeRequestHost .asciiOnly (ascii "API.Example.COM.:8443") =
        .ok (ascii "api.example.com") ∧
      normalizeRequestHost .asciiOnly (ascii "api.example.com") = .ok (ascii "api.example.com") := by
  have hfirst : normalizeRequestHost .asciiOnly (ascii "API.Example.COM.:8443") =
      .ok (ascii "api.example.com") := by decide
  have hagain := normalizeRequestHost_again .asciiOnly UnicodeTables.asciiOnly_lowers _ _ hfirst
  exact ⟨hfirst, hagain.1.mpr ⟨by decide, fun hcolon => absurd hcolon (by decide)⟩⟩

/-- A space before the port is let through once. -/
theorem normalizeRequestHost_space_before_port :
    normalizeRequestHost .asciiOnly (ascii "a :80") = .ok (ascii "a ") ∧
      normalizeRequestHost .asciiOnly (ascii "a ") = .error .emptyOrSpaced := by
  decide

end GGateway.Router
