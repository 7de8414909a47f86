import GGateway.DownstreamTLS.Hostname

/-!
# Hostname verification

`x509.Certificate.VerifyHostname`, which the selector relies on: names are compared
label by label without regard to case, and an asterisk that is the whole first label
of a pattern matches any first label.  The comparison of IP addresses is a
parameter; no server name that a binding is looked up with is an address.
-/

namespace GGateway.DownstreamTLS

open Text
open Upstream (trimTrailingDot validLabel foldName ValidName)

/-- The part of `x509.Certificate` that is read here; times count from the zero
`time.Time`. -/
structure Leaf where
  notBefore : Int
  notAfter : Int
  dnsNames : List Bytes
  ipAddresses : List Bytes
  deriving DecidableEq, Repr

/-! ## The checks of `crypto/x509` -/

/-- A byte of a label, after the first one. -/
def isHostnameByte (byte : UInt8) : Bool :=
  isLetter byte || isDigit byte || byte == 45 || byte == 95

def validHostnamePart (part : Bytes) : Bool :=
  part.head? != some 45 && part.all isHostnameByte

def validHostnameLabels (isPattern : Bool) : List Bytes → Bool
  | [] => true
  | first :: rest =>
    !first.isEmpty && (isPattern && first == [42] || validHostnamePart first) &&
      rest.all fun part => !part.isEmpty && validHostnamePart part

def validHostname (host : Bytes) (isPattern : Bool) : Bool :=
  let host := if isPattern then host else trimTrailingDot host
  !host.isEmpty && host != [42] && validHostnameLabels isPattern (split host 46)

def matchLabels : List Bytes → List Bytes → Bool
  | pattern :: patterns, host :: hosts => (pattern == [42] || pattern == host) && patterns == hosts
  | _, _ => false

def matchHostnames (pattern host : Bytes) : Bool :=
  let pattern := pattern.map lowerByte
  let host := (trimTrailingDot host).map lowerByte
  !pattern.isEmpty && !host.isEmpty && matchLabels (split pattern 46) (split host 46)

def matchExactly (left right : Bytes) : Bool :=
  !left.isEmpty && left != [46] && !right.isEmpty && right != [46] &&
    left.map lowerByte == right.map lowerByte

/-- `net.ParseIP` accepts: an address without a zone. -/
def parsesIP (host : Bytes) : Bool :=
  validAddr host && !host.contains 37

/-- An address may be written in brackets. -/
def candidateIP (host : Bytes) : Bytes :=
  if 3 ≤ host.length ∧ host.head? = some 91 ∧ host.getLast? = some 93 then
    slice host 1 (host.length - 1)
  else host

section Verify

variable (sameIP : Bytes → Bytes → Bool)

/-- One name of a certificate against a candidate in lower case. -/
def matchName (candidate pattern : Bytes) : Bool :=
  if validHostname candidate false && validHostname pattern true then
    matchHostnames pattern candidate
  else matchExactly pattern candidate

def verifyHostname (leaf : Leaf) (host : Bytes) : Bool :=
  if parsesIP (candidateIP host) then leaf.ipAddresses.any (sameIP (candidateIP host))
  else leaf.dnsNames.any (matchName (host.map lowerByte))

end Verify

/-! ## Letter case and dots -/

theorem lowerByte_eq_dot_iff (byte : UInt8) : lowerByte byte = 46 ↔ byte = 46 := by
  revert byte
  exact forall_byte (by decide)

theorem lowerByte_lowerByte (byte : UInt8) : lowerByte (lowerByte byte) = lowerByte byte := by
  revert byte
  exact forall_byte (by decide)

theorem map_lowerByte_idem (s : Bytes) : (s.map lowerByte).map lowerByte = s.map lowerByte := by
  rw [List.map_map]
  exact List.map_congr_left fun byte _ => lowerByte_lowerByte byte

theorem split_map_lowerByte (s : Bytes) :
    split (s.map lowerByte) 46 = (split s 46).map (List.map lowerByte) := by
  induction s with
  | nil => rfl
  | cons byte rest ih =>
    obtain ⟨first, others, hpieces⟩ := exists_split_eq_cons rest 46
    rw [List.map_cons, split_cons, split_cons, ih, hpieces]
    by_cases hdot : byte = 46
    · subst hdot
      have hlower : lowerByte 46 = 46 := by decide
      simp [hlower]
    · have hlower : lowerByte byte ≠ 46 := fun h => hdot ((lowerByte_eq_dot_iff byte).mp h)
      simp [hdot, hlower]

/-- Folding sees neither the case nor a trailing dot. -/
theorem foldName_map_lowerByte (raw : Bytes) : foldName (raw.map lowerByte) = foldName raw := by
  have hdot : lowerByte 46 = 46 := by decide
  rcases Upstream.trimTrailingDot_cases raw with hraw | hraw
  · rw [foldName, foldName]
    conv_lhs => rw [hraw]
    rw [List.map_append, List.map_singleton, hdot, Upstream.trimTrailingDot_concat,
      map_lowerByte_idem]
  · have hnot : ∀ start, raw ≠ start ++ [46] := by
      rintro start rfl
      rw [Upstream.trimTrailingDot_concat] at hraw
      simpa using congrArg List.length hraw
    have hlower : ∀ start, raw.map lowerByte ≠ start ++ [46] := by
      intro start hstart
      obtain ⟨left, right, rfl, hleft, hright⟩ := List.map_eq_append_iff.mp hstart
      obtain ⟨byte, others, rfl, hbyte, hnil⟩ := List.map_eq_cons_iff.mp hright
      obtain rfl := List.map_eq_nil_iff.mp hnil
      rw [(lowerByte_eq_dot_iff byte).mp hbyte] at hnot
      exact hnot left rfl
    rw [foldName, foldName, hraw, Upstream.trimTrailingDot_of_not hlower, map_lowerByte_idem]

/-! ## Names that the scanner accepts -/

theorem byte_of_label {label : Bytes} (h : validLabel label = true) :
    ∀ byte ∈ label, isDNSLabelCharacter byte = true := by
  simp only [validLabel, Bool.and_eq_true, List.all_eq_true] at h
  exact h.2

theorem byte_of_labels {name : Bytes} (h : (split name 46).all validLabel = true) :
    ∀ byte ∈ name, isDNSLabelCharacter byte = true ∨ byte = 46 := by
  intro byte hbyte
  rcases exists_mem_split 46 hbyte with hdot | ⟨label, hlabel, hmem⟩
  · exact Or.inr hdot
  · exact Or.inl (byte_of_label (List.all_eq_true.mp h label hlabel) byte hmem)

theorem map_lowerByte_of_labels {name : Bytes} (h : (split name 46).all validLabel = true) :
    name.map lowerByte = name :=
  (List.map_congr_left fun byte hbyte => (Upstream.bytes_of_labels h byte hbyte).1).trans
    (List.map_id _)

/-- A text whose fold has good labels is written with label characters and dots. -/
theorem byte_of_foldName {raw : Bytes} (h : (split (foldName raw) 46).all validLabel = true) :
    ∀ byte ∈ raw, isDNSLabelCharacter (lowerByte byte) = true ∨ byte = 46 := by
  intro byte hbyte
  have htrimmed : byte ∈ trimTrailingDot raw ∨ byte = 46 := by
    rcases Upstream.trimTrailingDot_cases raw with hraw | hraw
    · rw [hraw, List.mem_append, List.mem_singleton] at hbyte
      exact hbyte
    · rw [hraw]
      exact Or.inl hbyte
  rcases htrimmed with hmem | hdot
  · rcases byte_of_labels h (lowerByte byte) (List.mem_map_of_mem hmem) with hlabel | hlower
    · exact Or.inl hlabel
    · exact Or.inr ((lowerByte_eq_dot_iff byte).mp hlower)
  · exact Or.inr hdot

theorem not_special_of_label (byte : UInt8)
    (h : isDNSLabelCharacter (lowerByte byte) = true ∨ byte = 46) :
    byte ≠ 91 ∧ byte ≠ 58 ∧ byte ≠ 37 := by
  revert h
  revert byte
  exact forall_byte (by decide)

/-- Such a text is an address only if it is a dotted one. -/
theorem parsesIP_of_foldName {raw : Bytes}
    (h : (split (foldName raw) 46).all validLabel = true)
    (haddress : validAddr raw = true → validIPv4 raw = true → False) :
    parsesIP (candidateIP raw) = false := by
  have hbytes := byte_of_foldName h
  have hcandidate : candidateIP raw = raw := by
    refine if_neg ?_
    rintro ⟨_, hhead, _⟩
    exact (not_special_of_label 91 (hbytes 91 (List.mem_of_head? hhead))).1 rfl
  rw [hcandidate, parsesIP]
  cases hvalid : validAddr raw with
  | false => rfl
  | true =>
    have hcolon : (58 : UInt8) ∉ raw :=
      fun hmem => (not_special_of_label 58 (hbytes 58 hmem)).2.1 rfl
    exact (haddress hvalid (validIPv4_of_validAddr hvalid hcolon)).elim

theorem validHostnamePart_of_label {label : Bytes}
    (h : validLabel (label.map lowerByte) = true) :
    label.isEmpty = false ∧ validHostnamePart label = true := by
  have hbyte : ∀ byte : UInt8, isDNSLabelCharacter (lowerByte byte) = true →
      isHostnameByte byte = true := forall_byte (by decide)
  have hall := byte_of_label h
  simp only [validLabel, Bool.and_eq_true, decide_eq_true_eq, bne_iff_ne, List.length_map] at h
  constructor
  · exact List.isEmpty_eq_false_iff.mpr (List.length_pos_iff.mp h.1.1.1.1)
  · rw [validHostnamePart, Bool.and_eq_true, bne_iff_ne, List.all_eq_true]
    constructor
    · intro hhead
      refine h.1.1.2 ?_
      rw [List.head?_map, hhead]
      rfl
    · intro byte hmem
      exact hbyte byte (hall _ (List.mem_map_of_mem hmem))

/-- Good labels make a good host name, also in another case. -/
theorem validHostnameLabels_of_labels {pieces : List Bytes} (isPattern : Bool)
    (h : ∀ piece ∈ pieces, validLabel (piece.map lowerByte) = true) :
    validHostnameLabels isPattern pieces = true := by
  cases pieces with
  | nil => rfl
  | cons first rest =>
    obtain ⟨hfirst, hrest⟩ := List.forall_mem_cons.mp h
    obtain ⟨hsome, hpart⟩ := validHostnamePart_of_label hfirst
    simp only [validHostnameLabels, hsome, hpart, Bool.not_false, Bool.or_true, Bool.true_and,
      List.all_eq_true]
    intro piece hpiece
    obtain ⟨hother, hvalid⟩ := validHostnamePart_of_label (hrest piece hpiece)
    simp [hother, hvalid]

theorem validHostname_of_labels {host : Bytes} (isPattern : Bool)
    (h : (split (host.map lowerByte) 46).all validLabel = true) :
    (!host.isEmpty && host != [42] && validHostnameLabels isPattern (split host 46)) = true := by
  have hnonempty : host.isEmpty = false := by
    rw [List.isEmpty_eq_false_iff]
    rintro rfl
    exact absurd h (by decide)
  have hstar : (host != [42]) = true := by
    rw [bne_iff_ne]
    rintro rfl
    exact absurd h (by decide)
  rw [split_map_lowerByte, List.all_map, List.all_eq_true] at h
  simp only [hnonempty, hstar, validHostnameLabels_of_labels isPattern h, Bool.not_false,
    Bool.and_true]

/-- What a client may send for a name is a valid host name. -/
theorem validHostname_of_foldName {raw : Bytes}
    (h : (split (foldName raw) 46).all validLabel = true) :
    validHostname (raw.map lowerByte) false = true := by
  rw [← foldName_map_lowerByte] at h
  exact validHostname_of_labels false h

/-! ## From the canonical name to the name that was sent -/

section Sent

variable {sameIP : Bytes → Bytes → Bool} {leaf : Leaf} {raw : Bytes}

theorem matchHostnames_eq (h : (split (foldName raw) 46).all validLabel = true)
    (pattern : Bytes) :
    matchHostnames pattern (raw.map lowerByte) =
      (!pattern.isEmpty && matchLabels (split (pattern.map lowerByte) 46)
        (split (foldName raw) 46)) := by
  have hfold : (trimTrailingDot (raw.map lowerByte)).map lowerByte = foldName raw :=
    foldName_map_lowerByte raw
  have hnonempty : (foldName raw).isEmpty = false := by
    rw [List.isEmpty_eq_false_iff]
    intro hnil
    rw [hnil] at h
    exact absurd h (by decide)
  have hmap : (pattern.map lowerByte).isEmpty = pattern.isEmpty := by cases pattern <;> rfl
  simp only [matchHostnames, hfold, hnonempty, hmap, Bool.not_false, Bool.and_true]

/-- A valid pattern is compared with the labels of the name. -/
theorem matchName_of_pattern (h : (split (foldName raw) 46).all validLabel = true)
    {pattern : Bytes} (hpattern : validHostname pattern true = true)
    (hlabels : matchLabels (split (pattern.map lowerByte) 46) (split (foldName raw) 46) = true) :
    matchName (raw.map lowerByte) pattern = true := by
  have hnonempty : pattern.isEmpty = false := by
    simp only [validHostname, if_true, Bool.and_eq_true, Bool.not_eq_true'] at hpattern
    exact hpattern.1.1
  rw [matchName, validHostname_of_foldName h, hpattern, Bool.and_self, if_pos rfl,
    matchHostnames_eq h, hnonempty, hlabels]
  rfl

/-- A pattern that matches the canonical name matches it label by label. -/
theorem pattern_of_matchName {name pattern : Bytes}
    (h : (split name 46).all validLabel = true)
    (hmatch : matchName (name.map lowerByte) pattern = true) :
    validHostname pattern true = true ∧
      matchLabels (split (pattern.map lowerByte) 46) (split name 46) = true := by
  have hfold : foldName name = name := Upstream.foldName_of_labels h
  have hlabels : (split (foldName name) 46).all validLabel = true := hfold.symm ▸ h
  unfold matchName at hmatch
  rw [validHostname_of_foldName hlabels, Bool.true_and] at hmatch
  by_cases hpattern : validHostname pattern true = true
  · rw [if_pos hpattern, matchHostnames_eq hlabels, hfold, Bool.and_eq_true] at hmatch
    exact ⟨hpattern, hmatch.2⟩
  -- A pattern that equals the name would be a valid one.
  rw [if_neg hpattern] at hmatch
  simp only [matchExactly, Bool.and_eq_true, beq_iff_eq, map_lowerByte_idem] at hmatch
  have hsame : pattern.map lowerByte = name := by
    rw [hmatch.2]
    exact map_lowerByte_of_labels h
  exact absurd (validHostname_of_labels true (hsame.symm ▸ h)) hpattern

/-- The name that was sent is no address either. -/
theorem not_parsesIP {name : Bytes} (h : canonicalName raw = some name) :
    parsesIP (candidateIP raw) = false := by
  obtain ⟨rfl, hname⟩ := canonicalName_eq_some_iff.mp h
  refine parsesIP_of_foldName hname.labels ?_
  intro haddress hdotted
  have hdns := hname.dns
  rw [Upstream.fold_of_validIPv4 hdotted, haddress] at hdns
  exact absurd hdns.symm Bool.false_ne_true

theorem verifyHostname_of_pattern {name pattern : Bytes} (h : canonicalName raw = some name)
    (hmem : pattern ∈ leaf.dnsNames) (hpattern : validHostname pattern true = true)
    (hlabels : matchLabels (split (pattern.map lowerByte) 46) (split name 46) = true) :
    verifyHostname sameIP leaf raw = true := by
  obtain ⟨rfl, hname⟩ := canonicalName_eq_some_iff.mp h
  rw [verifyHostname, not_parsesIP h, if_neg Bool.false_ne_true, List.any_eq_true]
  exact ⟨pattern, hmem, matchName_of_pattern hname.labels hpattern hlabels⟩

/-- A certificate that covers the canonical name verifies every spelling of it. -/
theorem verifyHostname_of_canonical {name : Bytes} (h : canonicalName raw = some name)
    (hcovers : verifyHostname sameIP leaf name = true) :
    verifyHostname sameIP leaf raw = true := by
  have hname := (canonicalName_eq_some_iff.mp h).2
  have hself : canonicalName name = some name :=
    canonicalName_eq_some_iff.mpr ⟨hname.toValidName.fold, hname⟩
  rw [verifyHostname, not_parsesIP hself, if_neg Bool.false_ne_true, List.any_eq_true] at hcovers
  obtain ⟨pattern, hmem, hmatch⟩ := hcovers
  obtain ⟨hpattern, hlabels⟩ := pattern_of_matchName hname.labels hmatch
  exact verifyHostname_of_pattern h hmem hpattern hlabels

/-- The one label that is tried stands for every other one. -/
theorem pattern_of_sample {suffix rest : Bytes} {notBefore notAfter : Int}
    {ipAddresses : List Bytes} (hsuffix : (split suffix 46).all validLabel = true)
    (hverify : verifyHostname sameIP ⟨notBefore, notAfter, [42 :: 46 :: rest], ipAddresses⟩
      (97 :: 46 :: suffix) = true) :
    validHostname (42 :: 46 :: rest) true = true ∧
      split ((42 :: 46 :: rest).map lowerByte) 46 = [42] :: split suffix 46 := by
  have hsample : split (97 :: 46 :: suffix) 46 = [97] :: split suffix 46 :=
    split_append_cons [97] (by decide) suffix
  have hpattern : split ((42 :: 46 :: rest).map lowerByte) 46 =
      [42] :: split (rest.map lowerByte) 46 :=
    split_append_cons [42] (by decide) (rest.map lowerByte)
  have hlabels : (split (97 :: 46 :: suffix) 46).all validLabel = true := by
    rw [hsample, List.all_cons, hsuffix]
    decide
  have hfold : foldName (97 :: 46 :: suffix) = 97 :: 46 :: suffix :=
    Upstream.foldName_of_labels hlabels
  have hname : parsesIP (candidateIP (97 :: 46 :: suffix)) = false := by
    refine parsesIP_of_foldName (hfold.symm ▸ hlabels) ?_
    intro _ hdotted
    rcases bytes_of_ipv4Fields hdotted 97 List.mem_cons_self with hdigit | hdot
    · exact absurd hdigit (by decide)
    · exact absurd hdot (by decide)
  rw [verifyHostname, hname, if_neg Bool.false_ne_true] at hverify
  simp only [List.any_cons, List.any_nil, Bool.or_false] at hverify
  obtain ⟨hvalid, hmatch⟩ := pattern_of_matchName hlabels hverify
  rw [hpattern, hsample] at hmatch
  simp only [matchLabels, Bool.and_eq_true, beq_iff_eq] at hmatch
  rw [hpattern, hmatch.2]
  exact ⟨hvalid, rfl⟩

end Sent

end GGateway.DownstreamTLS
