import GGateway.Text.Spelling
import GGateway.Upstream.Config

/-!
# Spellings of endpoints

`normalizeHost` and `normalizeEndpoint` map every spelling of a host and of an endpoint
URL to one canonical text, and leave that text alone.  What they ask of `url.Parse` and
`netip` is stated in `Platform.Documented`: how a canonical URL is parsed, and that a
printed address is an address that prints as itself.
-/

namespace GGateway.Upstream

open Text Model Library.Checks

/-- What the standard library is assumed to do on canonical texts. -/
structure Platform.Documented (platform : Platform) : Prop where
  uppers : platform.tables.Uppers
  unmapped : ∀ address, validAddr address = true → address.contains 37 = false →
    validAddr (platform.unmapAddr address) = true ∧
      (platform.unmapAddr address).contains 37 = false ∧
      platform.unmapAddr (platform.unmapAddr address) = platform.unmapAddr address
  dotted : ∀ address, validIPv4 address = true → platform.unmapAddr address = address
  parsed : ∀ scheme host number, (scheme = ascii "http" ∨ scheme = ascii "https") →
    (∃ raw, normalizeHost platform raw = .ok host) → 0 < number → number ≤ 65535 →
    platform.parseURL (scheme ++ ascii "://" ++ joinHostPort host (decimal number)) =
      .ok ⟨scheme, [], false, joinHostPort host (decimal number), host, decimal number, [], [],
        [], []⟩

/-! ## Host names -/

theorem trimTrailingDot_concat (name : Bytes) : trimTrailingDot (name ++ [46]) = name := by
  have hsuffix : hasSuffix (name ++ [46]) [46] = true :=
    List.isSuffixOf_iff_suffix.mpr (List.suffix_append name [46])
  rw [trimTrailingDot, if_pos hsuffix, List.dropLast_concat]

variable {name : Bytes} {number : Nat}

theorem trimTrailingDot_of_not (h : ∀ start, name ≠ start ++ [46]) :
    trimTrailingDot name = name := by
  refine if_neg fun hsuffix => ?_
  obtain ⟨start, hstart⟩ := List.isSuffixOf_iff_suffix.mp hsuffix
  exact h start hstart.symm

/-- A text has a trailing dot, or is its own trimmed form. -/
theorem trimTrailingDot_cases (name : Bytes) :
    name = trimTrailingDot name ++ [46] ∨ trimTrailingDot name = name := by
  by_cases h : ∃ start, name = start ++ [46]
  · obtain ⟨start, rfl⟩ := h
    exact Or.inl (by rw [trimTrailingDot_concat])
  · exact Or.inr (trimTrailingDot_of_not fun start hstart => h ⟨start, hstart⟩)

/-- The name that a host is compared by. -/
def foldName (host : Bytes) : Bytes :=
  (trimTrailingDot host).map lowerByte

/-- What `normalizeHost` demands of a name. -/
structure ValidName (name : Bytes) : Prop where
  nonempty : name ≠ []
  length : name.length ≤ 253
  labels : (split name 46).all validLabel = true

theorem bytes_of_labels (h : (split name 46).all validLabel = true) :
    ∀ byte ∈ name, lowerByte byte = byte ∧ byte < 128 ∧ byte ≠ 58 ∧ byte ≠ 37 := by
  intro byte hbyte
  refine lowerByte_eq_self_of_label byte ?_
  rcases exists_mem_split 46 hbyte with hdot | ⟨label, hlabel, hmem⟩
  · exact Or.inr hdot
  have hvalid := List.all_eq_true.mp h label hlabel
  simp only [validLabel, Bool.and_eq_true, List.all_eq_true] at hvalid
  exact Or.inl (hvalid.2 byte hmem)

/-- A name does not end in a dot, so folding leaves it alone. -/
theorem foldName_of_labels (h : (split name 46).all validLabel = true) : foldName name = name := by
  have htrim : trimTrailingDot name = name := by
    refine trimTrailingDot_of_not ?_
    rintro start rfl
    have hempty := List.all_eq_true.mp h [] (nil_mem_split_concat start 46)
    contradiction
  rw [foldName, htrim]
  exact (List.map_congr_left fun byte hbyte => (bytes_of_labels h byte hbyte).1).trans
    (List.map_id _)

theorem ValidName.bytes (h : ValidName name) :
    ∀ byte ∈ name, lowerByte byte = byte ∧ byte < 128 ∧ byte ≠ 58 ∧ byte ≠ 37 :=
  bytes_of_labels h.labels

theorem ValidName.fold (h : ValidName name) : foldName name = name :=
  foldName_of_labels h.labels

theorem validName_of_validIPv4 {address : Bytes} (h : validIPv4 address = true) :
    ValidName address := by
  obtain ⟨hbytes, hne, hlength, hpieces⟩ := validIPv4_spec h
  refine ⟨hne, hlength.trans (by omega), List.all_eq_true.mpr fun label hlabel => ?_⟩
  obtain ⟨hshort, hmem⟩ := mem_of_mem_split label hlabel
  have hdigits : ∀ byte ∈ label, isDigit byte = true := by
    intro byte hbyte
    obtain ⟨hin, hdot⟩ := hmem byte hbyte
    exact (hbytes byte hin).resolve_right hdot
  have hnot : ∀ byte ∈ label, byte ≠ 45 := by
    rintro byte hbyte rfl
    exact absurd (hdigits 45 hbyte) (by decide)
  have hpos : 0 < label.length := List.length_pos_iff.mpr (hpieces label hlabel)
  simp only [validLabel, Bool.and_eq_true, decide_eq_true_eq, List.all_eq_true, bne_iff_ne]
  refine ⟨⟨⟨⟨hpos, by omega⟩, fun hhead => ?_⟩, fun hlast => ?_⟩, fun byte hbyte => ?_⟩
  · exact hnot 45 (List.mem_of_head? hhead) rfl
  · exact hnot 45 (List.mem_of_getLast? hlast) rfl
  · simp [hdigits byte hbyte]

/-- A dotted address is not followed by a dot. -/
theorem fold_of_validIPv4 {address : Bytes} (h : validIPv4 address = true) :
    foldName address = address :=
  (validName_of_validIPv4 h).fold

/-! ## Hosts -/

section Hosts

variable {platform : Platform} {raw host : Bytes}

/-- `normalizeHost` prints an address or folds a name. -/
theorem normalizeHost_eq_ok :
    normalizeHost platform raw = .ok host ↔
      if validAddr raw then raw.contains 37 = false ∧ host = platform.unmapAddr raw
      else (∀ byte ∈ raw, byte < 128) ∧ host = foldName raw ∧ ValidName host := by
  unfold normalizeHost
  by_cases haddress : validAddr raw = true
  · rw [if_pos haddress, if_pos haddress]
    cases raw.contains 37 <;> simp [eq_comm]
  rw [if_neg haddress, if_neg haddress]
  by_cases hwide : raw.any (128 ≤ ·) = true
  · rw [if_pos hwide]
    obtain ⟨byte, hbyte, hhigh⟩ := List.any_eq_true.mp hwide
    refine ⟨fun h => by contradiction, fun h => ?_⟩
    exact absurd (h.1 byte hbyte) (not_lt.mpr (of_decide_eq_true hhigh))
  · rw [if_neg hwide]
    have hascii : ∀ byte ∈ raw, byte < 128 := by
      intro byte hbyte
      by_contra hhigh
      exact hwide (List.any_eq_true.mpr ⟨byte, hbyte, decide_eq_true (not_lt.mp hhigh)⟩)
    have htrimmed : ∀ byte ∈ trimTrailingDot raw, byte < 128 := by
      intro byte hbyte
      rcases trimTrailingDot_cases raw with hdot | hsame
      · exact hascii byte (hdot ▸ List.mem_append_left _ hbyte)
      · exact hascii byte (hsame ▸ hbyte)
    have hname : toLower platform.tables (trimTrailingDot raw) = foldName raw :=
      toLower_ascii platform.tables htrimmed
    dsimp only
    rw [hname]
    split_ifs with hlength hlabels
    · refine ⟨fun h => by contradiction, fun h => ?_⟩
      obtain ⟨_, rfl, hvalid⟩ := h
      have hpos := List.length_pos_iff.mpr hvalid.nonempty
      have hbound := hvalid.length
      omega
    · refine ⟨fun h => ?_, fun h => by rw [h.2.1]⟩
      cases h
      refine ⟨hascii, rfl, ⟨?_, by omega, hlabels⟩⟩
      exact List.length_pos_iff.mp (by omega)
    · refine ⟨fun h => by contradiction, fun h => ?_⟩
      obtain ⟨_, rfl, hvalid⟩ := h
      exact absurd hvalid.labels hlabels

theorem hostname_ne_nil (h : normalizeHost platform raw = .ok host) : raw ≠ [] := by
  rintro rfl
  rw [normalizeHost_eq_ok, if_neg (by decide)] at h
  have hnil : foldName [] = [] := rfl
  exact h.2.2.nonempty (h.2.1.trans hnil)

/-- Two spellings of a host: addresses that print the same, or names that differ in
letter case and in a trailing dot. -/
def SameHost (platform : Platform) (left right : Bytes) : Prop :=
  (validAddr left = true ∧ left.contains 37 = false ∧ validAddr right = true ∧
      right.contains 37 = false ∧ platform.unmapAddr left = platform.unmapAddr right) ∨
    ((58 : UInt8) ∉ left ∧ (58 : UInt8) ∉ right ∧ foldName left = foldName right)

variable (hplatform : platform.Documented)

include hplatform

/-- Without a colon, an address is a dotted one, and is treated like a name. -/
theorem normalizeHost_name_iff (hcolon : (58 : UInt8) ∉ raw) :
    normalizeHost platform raw = .ok host ↔
      (∀ byte ∈ raw, byte < 128) ∧ host = foldName raw ∧ ValidName host := by
  rw [normalizeHost_eq_ok]
  split_ifs with haddress
  · have hdotted := validIPv4_of_validAddr haddress hcolon
    have hvalid := validName_of_validIPv4 hdotted
    have hascii : ∀ byte ∈ raw, byte < 128 := fun byte hbyte => (hvalid.bytes byte hbyte).2.1
    have hzone : raw.contains 37 = false := by
      rw [List.contains_eq_mem, decide_eq_false_iff_not]
      exact fun hbyte => (hvalid.bytes 37 hbyte).2.2.2 rfl
    rw [hplatform.dotted raw hdotted, fold_of_validIPv4 hdotted]
    constructor
    · rintro ⟨_, rfl⟩
      exact ⟨hascii, rfl, hvalid⟩
    · rintro ⟨_, rfl, _⟩
      exact ⟨hzone, rfl⟩
  · rfl

theorem normalizeHost_same {left right : Bytes} (h : normalizeHost platform left = .ok host)
    (hsame : SameHost platform left right) : normalizeHost platform right = .ok host := by
  rcases hsame with ⟨hleft, hzone, hright, hzone', hprinted⟩ | ⟨hcolon, hcolon', hfold⟩
  · rw [normalizeHost_eq_ok, if_pos hleft] at h
    rw [normalizeHost_eq_ok, if_pos hright]
    exact ⟨hzone', h.2.trans hprinted⟩
  rw [normalizeHost_name_iff hplatform hcolon] at h
  rw [normalizeHost_name_iff hplatform hcolon', ← hfold]
  refine ⟨fun byte hbyte => ?_, h.2⟩
  -- A byte of the name is ASCII because its lower case is, and the dot is.
  have hfolded : ∀ byte ∈ trimTrailingDot right, byte < 128 := by
    intro byte hbyte
    rw [← lowerByte_lt_iff]
    have hmem : lowerByte byte ∈ foldName right := List.mem_map_of_mem hbyte
    rw [← hfold, ← h.2.1] at hmem
    exact (h.2.2.bytes _ hmem).2.1
  rcases trimTrailingDot_cases right with hdot | htrim
  · rw [hdot, List.mem_append, List.mem_singleton] at hbyte
    rcases hbyte with hbyte | rfl
    · exact hfolded byte hbyte
    · decide
  · exact hfolded byte (by rwa [htrim])

theorem normalizeHost_idem (h : normalizeHost platform raw = .ok host) :
    normalizeHost platform host = .ok host := by
  rw [normalizeHost_eq_ok] at h
  split_ifs at h with haddress
  · obtain ⟨hzone, rfl⟩ := h
    obtain ⟨hvalid, hprinted, hagain⟩ := hplatform.unmapped raw haddress hzone
    rw [normalizeHost_eq_ok, if_pos hvalid]
    exact ⟨hprinted, hagain.symm⟩
  · obtain ⟨_, _, hvalid⟩ := h
    have hcolon : (58 : UInt8) ∉ host := fun hbyte => (hvalid.bytes 58 hbyte).2.2.1 rfl
    rw [normalizeHost_name_iff hplatform hcolon]
    exact ⟨fun byte hbyte => (hvalid.bytes byte hbyte).2.1, hvalid.fold.symm, hvalid⟩

end Hosts

/-! ## Ports -/

theorem decimal_eq_map (number : Nat) :
    decimal number = (Nat.toDigits 10 number).map fun digit => UInt8.ofNat digit.toNat := by
  rw [decimal, ascii, Nat.toString_eq_repr, Nat.toList_repr]

theorem toNat_of_mem_toDigits {digit : Char} (h : digit ∈ Nat.toDigits 10 number) :
    48 ≤ digit.toNat ∧ digit.toNat ≤ 57 ∧ (UInt8.ofNat digit.toNat).toNat = digit.toNat := by
  have hdigit : digit.isDigit = true := Nat.isDigit_of_mem_toDigits (by decide) (by decide) h
  simp only [Char.isDigit, Bool.and_eq_true, decide_eq_true_eq, UInt32.le_iff_toNat_le] at hdigit
  have hlow : 48 ≤ digit.toNat := hdigit.1
  have hhigh : digit.toNat ≤ 57 := hdigit.2
  refine ⟨hlow, hhigh, ?_⟩
  rw [UInt8.toNat_ofNat']
  omega

theorem isDigit_of_mem_decimal : ∀ byte ∈ decimal number, isDigit byte = true := by
  intro byte hbyte
  rw [decimal_eq_map] at hbyte
  obtain ⟨digit, hdigit, rfl⟩ := List.mem_map.mp hbyte
  obtain ⟨hlow, hhigh, hvalue⟩ := toNat_of_mem_toDigits hdigit
  simp only [isDigit, decide_eq_true_eq, UInt8.le_iff_toNat_le, hvalue]
  exact ⟨hlow, hhigh⟩

theorem decimal_ne_nil (number : Nat) : decimal number ≠ [] := by
  rw [decimal_eq_map]
  simp

theorem decimalValue_decimal (number : Nat) : decimalValue (decimal number) = number := by
  have hfold : ∀ (digits : List Char) (start : Nat),
      (∀ digit ∈ digits, digit ∈ Nat.toDigits 10 number) →
      (digits.map fun digit => UInt8.ofNat digit.toNat).foldl
        (fun value digit => value * 10 + (digit.toNat - 48)) start =
      Nat.ofDigitChars 10 digits start := by
    intro digits
    induction digits with
    | nil => simp
    | cons first rest ih =>
      intro start hdigits
      obtain ⟨hfirst, hrest⟩ := List.forall_mem_cons.mp hdigits
      rw [List.map_cons, List.foldl_cons, Nat.ofDigitChars_cons, ih _ hrest,
        (toNat_of_mem_toDigits hfirst).2.2, Nat.mul_comm]
      rfl
  rw [decimalValue, decimal_eq_map, hfold _ 0 fun _ => id, Nat.ofDigitChars_ten_toDigits]

theorem parsePort_eq_some {port : Bytes} (h : parsePort port = some number) : number ≤ 65535 := by
  unfold parsePort at h
  split_ifs at h with hinvalid
  cases h
  simp only [Bool.or_eq_true, decide_eq_true_eq, not_or, not_lt] at hinvalid
  exact hinvalid.2

theorem parsePort_decimal (h : number ≤ 65535) : parsePort (decimal number) = some number := by
  have hdigits : (decimal number).all isDigit = true :=
    List.all_eq_true.mpr isDigit_of_mem_decimal
  have hnonempty : (decimal number).isEmpty = false := by
    rw [List.isEmpty_eq_false_iff]
    exact decimal_ne_nil number
  unfold parsePort
  rw [decimalValue_decimal, hdigits, hnonempty, if_neg (by simpa using h)]

/-! ## Endpoint URLs -/

/-- The port, or the default of the scheme. -/
def URL.effectivePort (url : URL) : Bytes :=
  if url.port ≠ [] then url.port
  else if url.scheme = ascii "https" then ascii "443"
  else ascii "80"

/-- A URL with a scheme, a host and perhaps a port only. -/
structure URL.Bare (url : URL) : Prop where
  scheme : url.scheme = ascii "http" ∨ url.scheme = ascii "https"
  only : url.opaquePart = [] ∧ url.hasUser = false ∧ url.rawQuery = [] ∧ url.fragment = []
  path : url.path = [] ∨ url.path = ascii "/"
  rawPath : url.rawPath = []
  host : url.host ≠ []
  hostname : url.hostname ≠ []
  colon : hasSuffix url.host [58] = false

theorem normalizeEndpoint_eq_ok {platform : Platform} {raw canonical : Bytes} :
    normalizeEndpoint platform raw = .ok canonical ↔
      ∃ url number host, platform.parseURL raw = .ok url ∧ url.Bare ∧
        parsePort url.effectivePort = some number ∧ number ≠ 0 ∧
        normalizeHost platform url.hostname = .ok host ∧
        canonical = url.scheme ++ ascii "://" ++ joinHostPort host (decimal number) := by
  unfold normalizeEndpoint
  simp only [bind_eq_ok, require_eq_ok, decide_eq_true_eq]
  constructor
  · rintro ⟨url, hurl, _, hscheme, _, honly, _, hpath, _, hraw, _, hhost, _, hname, _, hcolon, h⟩
    split at h
    · contradiction
    rename_i number hnumber
    simp only [bind_eq_ok, require_eq_ok, decide_eq_true_eq] at h
    obtain ⟨_, hzero, host, hnormalized, hresult⟩ := h
    refine ⟨url, number, host, hurl, ⟨hscheme, honly, hpath, hraw, hhost, hname, ?_⟩, hnumber,
      hzero, hnormalized, (Except.ok.inj hresult).symm⟩
    simpa using hcolon
  · rintro ⟨url, number, host, hurl, hbare, hnumber, hzero, hnormalized, rfl⟩
    refine ⟨url, hurl, (), hbare.scheme, (), hbare.only, (), hbare.path, (), hbare.rawPath, (),
      hbare.host, (), hbare.hostname, (), by simp [hbare.colon], ?_⟩
    rw [URL.effectivePort] at hnumber
    rw [hnumber]
    simp only [bind_eq_ok, require_eq_ok, decide_eq_true_eq]
    exact ⟨(), hzero, host, hnormalized, rfl⟩

/-- Two spellings of an endpoint URL: letter case and a trailing dot of the host, another
text of the same address, the default port, and a trailing slash. -/
structure URL.Respelled (platform : Platform) (left right : URL) : Prop where
  scheme : right.scheme = left.scheme
  only : right.opaquePart = left.opaquePart ∧ right.hasUser = left.hasUser ∧
    right.rawQuery = left.rawQuery ∧ right.fragment = left.fragment
  path : right.path = left.path ∨
    ((left.path = [] ∨ left.path = ascii "/") ∧ (right.path = [] ∨ right.path = ascii "/"))
  rawPath : right.rawPath = left.rawPath
  host : right.host = [] ↔ left.host = []
  colon : hasSuffix right.host [58] = hasSuffix left.host [58]
  port : right.effectivePort = left.effectivePort
  hostname : SameHost platform left.hostname right.hostname

/-- Two endpoints with such URLs and the same weight. -/
structure Endpoint.Respelled (platform : Platform) (left right : Endpoint) : Prop where
  weight : right.weight = left.weight
  url : ∃ leftURL rightURL, platform.parseURL left.url = .ok leftURL ∧
    platform.parseURL right.url = .ok rightURL ∧ leftURL.Respelled platform rightURL

section Endpoints

variable {platform : Platform} (hplatform : platform.Documented)

include hplatform

theorem normalizeEndpoint_same {left right : Endpoint} (hsame : Endpoint.Respelled platform left right)
    {canonical : Bytes} (h : normalizeEndpoint platform left.url = .ok canonical) :
    normalizeEndpoint platform right.url = .ok canonical := by
  obtain ⟨leftURL, rightURL, hleft, hright, hurl⟩ := hsame.url
  rw [normalizeEndpoint_eq_ok] at h ⊢
  obtain ⟨url, number, host, hparsed, hbare, hnumber, hzero, hhost, hcanonical⟩ := h
  obtain rfl : leftURL = url := Except.ok.inj (hleft.symm.trans hparsed)
  have hnormalized := normalizeHost_same hplatform hhost hurl.hostname
  refine ⟨rightURL, number, host, hright, ?_, hurl.port ▸ hnumber, hzero, hnormalized,
    hurl.scheme ▸ hcanonical⟩
  refine ⟨hurl.scheme ▸ hbare.scheme, ?_, ?_, hurl.rawPath.trans hbare.rawPath,
    (not_congr hurl.host).mpr hbare.host, hostname_ne_nil hnormalized,
    hurl.colon.trans hbare.colon⟩
  · obtain ⟨hplain, huser, hquery, hfragment⟩ := hurl.only
    rw [hplain, huser, hquery, hfragment]
    exact hbare.only
  · rcases hurl.path with hpath | ⟨_, hpath⟩
    · exact hpath ▸ hbare.path
    · exact hpath

/-- A canonical URL is parsed into its parts, and normalized to itself. -/
theorem normalizeEndpoint_idem {raw canonical : Bytes}
    (h : normalizeEndpoint platform raw = .ok canonical) :
    normalizeEndpoint platform canonical = .ok canonical ∧
      ∃ url, platform.parseURL canonical = .ok url ∧
        (url.scheme = ascii "http" ∨ url.scheme = ascii "https") := by
  rw [normalizeEndpoint_eq_ok] at h
  obtain ⟨url, number, host, _, hbare, hnumber, hzero, hhost, rfl⟩ := h
  have hbound := parsePort_eq_some hnumber
  have hparsed := hplatform.parsed url.scheme host number hbare.scheme ⟨_, hhost⟩ (by omega) hbound
  refine ⟨?_, _, hparsed, hbare.scheme⟩
  rw [normalizeEndpoint_eq_ok]
  refine ⟨_, number, host, hparsed, ⟨hbare.scheme, ⟨rfl, rfl, rfl, rfl⟩, Or.inl rfl, rfl, ?_,
    hostname_ne_nil (normalizeHost_idem hplatform hhost), ?_⟩, ?_, hzero,
    normalizeHost_idem hplatform hhost, rfl⟩
  · show joinHostPort host (decimal number) ≠ []
    unfold joinHostPort
    split_ifs <;> simp
  · -- The text ends in a digit of the port.
    have hending : ∃ start, joinHostPort host (decimal number) = start ++ decimal number := by
      unfold joinHostPort
      split_ifs
      · exact ⟨_, rfl⟩
      · exact ⟨_, rfl⟩
    obtain ⟨start, hstart⟩ := hending
    show hasSuffix (joinHostPort host (decimal number)) [58] = false
    rw [hstart, hasSuffix, ← Bool.not_eq_true, List.isSuffixOf_iff_suffix]
    rintro ⟨before, hbefore⟩
    have hlast := congrArg List.getLast? hbefore
    rw [List.getLast?_concat, List.getLast?_append_of_ne_nil _ (decimal_ne_nil number)] at hlast
    exact absurd (isDigit_of_mem_decimal 58 (List.mem_of_getLast? hlast.symm)) (by decide)
  · rw [URL.effectivePort, if_pos (decimal_ne_nil number)]
    exact parsePort_decimal hbound

end Endpoints

end GGateway.Upstream
