import GGateway.Upstream.Spelling

/-!
# Server names

`internal/downstreamtls/hostname.go`.  One scanner canonicalizes the hosts of the
bindings, the names of the certificates and the name that a client sends.

* `canonicalizeServerName` is the scanner: one pass over the bytes that checks each
  label when it ends.
* `canonicalName` says what the scanner computes: the name in lower case, without a
  trailing dot, if each of its labels is well formed and it is not an address.
-/

namespace GGateway.DownstreamTLS

open Text
open Upstream (trimTrailingDot validLabel foldName ValidName)

/-! ## The scanner -/

def isDNSLabelCharacter (character : UInt8) : Bool :=
  isLowerLetter character || isDigit character || character == 45

def couldBeIPv4Literal (canonical : Bytes) : Bool :=
  canonical.all fun character => isDigit character || character == 46

/-- The label `scratch[labelStart:index]` is empty, too long, or has a hyphen at one
of its ends. -/
def labelRejected (scratch : Bytes) (labelStart index : Nat) : Bool :=
  index == labelStart || decide (63 < index - labelStart) ||
    scratch[labelStart]? == some 45 || scratch[index - 1]? == some 45

/-- The loop over the name; `scratch` are the bytes written so far, so that its
length is the index.  The source ranges over runes: the first byte of a rune that
is not ASCII is no label character. -/
def scanServerName : Bytes → Bytes → Nat → Option (Bytes × Nat)
  | [], scratch, labelStart => some (scratch, labelStart)
  | byte :: rest, scratch, labelStart =>
    let character := lowerByte byte
    if character = 46 then
      if labelRejected scratch labelStart scratch.length then none
      else scanServerName rest (scratch ++ [character]) (scratch.length + 1)
    else if !isDNSLabelCharacter character then none
    else scanServerName rest (scratch ++ [character]) labelStart

def finishServerName (scratch : Bytes) (labelStart : Nat) : Option Bytes :=
  if labelRejected scratch labelStart scratch.length then none
  else if couldBeIPv4Literal scratch && validAddr scratch then none
  else some scratch

def canonicalizeServerName (raw : Bytes) : Option Bytes :=
  let raw := trimTrailingDot raw
  if raw.length = 0 ∨ 253 < raw.length then none
  else
    match scanServerName raw [] 0 with
    | none => none
    | some (scratch, labelStart) => finishServerName scratch labelStart

def normalizeBindingHost (raw : Bytes) : Option (Bytes × Bool) :=
  let wildcard := hasPrefix raw [42, 46]
  match canonicalizeServerName (if wildcard then raw.drop 2 else raw) with
  | none => none
  | some canonical =>
    if wildcard && !canonical.contains 46 then none else some (canonical, wildcard)

/-! ## Names -/

structure ServerName (name : Bytes) : Prop extends ValidName name where
  dns : validAddr name = false

instance (name : Bytes) : Decidable (ServerName name) :=
  decidable_of_iff (name ≠ [] ∧ name.length ≤ 253 ∧ (split name 46).all validLabel = true ∧
    validAddr name = false)
    ⟨fun h => ⟨⟨h.1, h.2.1, h.2.2.1⟩, h.2.2.2⟩,
      fun h => ⟨h.nonempty, h.length, h.labels, h.dns⟩⟩

/-- The name that a text stands for. -/
def canonicalName (raw : Bytes) : Option Bytes :=
  if ServerName (foldName raw) then some (foldName raw) else none

/-- The pattern that a binding's host stands for: a name, or `*.` and a name of at
least two labels. -/
def canonicalPattern : Bytes → Option Bytes
  | 42 :: 46 :: rest =>
    (canonicalName rest).bind fun name =>
      if name.contains 46 then some (42 :: 46 :: name) else none
  | host => canonicalName host

/-! ## What the scanner computes -/

theorem split_of_not_mem {label : Bytes} (h : (46 : UInt8) ∉ label) : split label 46 = [label] := by
  have hpieces : ∀ piece ∈ [label], (46 : UInt8) ∉ piece := by simpa using h
  simpa [split] using List.splitOn_intercalate (46 : UInt8) hpieces (List.cons_ne_nil _ _)

theorem split_append_cons (label : Bytes) (h : (46 : UInt8) ∉ label) (rest : Bytes) :
    split (label ++ 46 :: rest) 46 = label :: split rest 46 := by
  have happend : split (label ++ 46 :: rest) 46 = split label 46 ++ split rest 46 :=
    List.splitOn_append_cons_self label rest
  rw [happend, split_of_not_mem h]
  rfl

theorem isDNSLabelCharacter_dot : isDNSLabelCharacter 46 = false := by
  decide

theorem not_mem_of_label {label : Bytes} (h : label.all isDNSLabelCharacter = true) :
    (46 : UInt8) ∉ label := by
  intro hdot
  have hcharacter := List.all_eq_true.mp h 46 hdot
  rw [isDNSLabelCharacter_dot] at hcharacter
  exact Bool.false_ne_true hcharacter

/-- At the end of a label of label characters, the check is `validLabel`. -/
theorem labelRejected_eq {done label : Bytes} (h : label.all isDNSLabelCharacter = true) :
    labelRejected (done ++ label) done.length (done ++ label).length = !validLabel label := by
  have hcharacters : (label.all fun byte => isLowerLetter byte || isDigit byte || byte == 45) =
      true := h
  have hhead : (done ++ label)[done.length]? = label.head? := by
    rw [List.getElem?_append_right le_rfl, Nat.sub_self, List.head?_eq_getElem?]
  cases label with
  | nil => simp [labelRejected, validLabel]
  | cons first rest =>
    have hlast : (done ++ first :: rest)[(done ++ first :: rest).length - 1]? =
        (first :: rest).getLast? := by
      rw [← List.getLast?_eq_getElem?, List.getLast?_append]
      simp [List.getLast?_cons]
    have hlength : (done ++ first :: rest).length - done.length = (first :: rest).length := by
      rw [List.length_append]
      omega
    have hmore : ((done ++ first :: rest).length == done.length) = false := by
      rw [List.length_append, List.length_cons, beq_eq_false_iff_ne]
      omega
    have hsome : 0 < (first :: rest).length := Nat.succ_pos _
    unfold labelRejected validLabel
    rw [hhead, hlast, hlength, hmore, hcharacters]
    simp only [hsome, true_and, Bool.and_true, Bool.false_or, bne, Bool.not_and, Bool.not_not,
      ← decide_not, not_le]

/-- What the loop and the check of the last label make of a name. -/
def scanned (raw done label : Bytes) : Option Bytes :=
  match scanServerName raw (done ++ label) done.length with
  | none => none
  | some (scratch, labelStart) =>
    if labelRejected scratch labelStart scratch.length then none else some scratch

/-- The scan from the middle of a label checks each piece of what is left. -/
theorem scanned_eq (raw done label : Bytes) (h : label.all isDNSLabelCharacter = true) :
    scanned raw done label =
      if (split (label ++ raw.map lowerByte) 46).all validLabel = true then
        some (done ++ label ++ raw.map lowerByte) else none := by
  induction raw generalizing done label with
  | nil =>
    rw [List.map_nil, List.append_nil, List.append_nil, split_of_not_mem (not_mem_of_label h)]
    simp only [scanned, scanServerName, labelRejected_eq h, List.all_cons, List.all_nil,
      Bool.and_true]
    cases validLabel label <;> simp
  | cons byte rest ih =>
    by_cases hdot : lowerByte byte = 46
    · -- The label ends here.
      rw [List.map_cons, hdot, split_append_cons label (not_mem_of_label h), List.all_cons]
      cases hlabel : validLabel label with
      | false =>
        simp only [scanned, scanServerName, hdot, if_true, labelRejected_eq h, hlabel,
          Bool.not_false, Bool.false_and, Bool.false_eq_true, if_false]
      | true =>
        have hscan : scanned (byte :: rest) done label =
            scanned rest (done ++ label ++ [46]) [] := by
          simp only [scanned, scanServerName, hdot, if_true, labelRejected_eq h, hlabel,
            Bool.not_true, Bool.false_eq_true, if_false, List.append_nil]
          rw [show (done ++ label ++ [(46 : UInt8)]).length = (done ++ label).length + 1 from
            List.length_append]
        rw [hscan, ih _ [] rfl]
        simp
    · by_cases hcharacter : isDNSLabelCharacter (lowerByte byte) = true
      · have hscan : scanned (byte :: rest) done label =
            scanned rest done (label ++ [lowerByte byte]) := by
          simp [scanned, scanServerName, hdot, hcharacter]
        rw [hscan, ih done (label ++ [lowerByte byte]) (by simp [h, hcharacter])]
        simp
      · -- The label goes on with a byte that no label has.
        have hscan : scanned (byte :: rest) done label = none := by
          simp [scanned, scanServerName, hdot, hcharacter]
        have hpiece : ∃ piece ∈ split (label ++ (byte :: rest).map lowerByte) 46,
            lowerByte byte ∈ piece := by
          have hmem : lowerByte byte ∈ label ++ (byte :: rest).map lowerByte := by simp
          exact (exists_mem_split 46 hmem).resolve_left hdot
        obtain ⟨piece, hpiece, hbyte⟩ := hpiece
        rw [hscan, if_neg]
        intro hall
        have hvalid := List.all_eq_true.mp hall piece hpiece
        simp only [validLabel, Bool.and_eq_true, List.all_eq_true] at hvalid
        exact hcharacter (hvalid.2 _ hbyte)

/-- Only a text of digits and dots is an address, if it is a name. -/
theorem couldBeIPv4Literal_of_validAddr {name : Bytes} (h : ValidName name)
    (haddress : validAddr name = true) : couldBeIPv4Literal name = true := by
  have hdotted : validIPv4 name = true := by
    unfold validAddr at haddress
    split at haddress
    · exact haddress
    · rename_i hfind
      exact absurd rfl (h.bytes 58 (List.mem_of_find?_eq_some hfind)).2.2.1
    · contradiction
  refine List.all_eq_true.mpr ?_
  intro byte hbyte
  rcases bytes_of_ipv4Fields hdotted byte hbyte with hdigit | rfl
  · simp [hdigit]
  · rfl

theorem canonicalizeServerName_eq (raw : Bytes) :
    canonicalizeServerName raw = canonicalName raw := by
  have hlength : (foldName raw).length = (trimTrailingDot raw).length := List.length_map _
  have hscan := scanned_eq (trimTrailingDot raw) [] [] rfl
  change scanned (trimTrailingDot raw) [] [] = if (split (foldName raw) 46).all validLabel = true
    then some (foldName raw) else none at hscan
  unfold canonicalizeServerName
  by_cases hbounds : (trimTrailingDot raw).length = 0 ∨ 253 < (trimTrailingDot raw).length
  · rw [if_pos hbounds, canonicalName, if_neg]
    intro hname
    have hpos := List.length_pos_iff.mpr hname.nonempty
    have hshort := hname.length
    omega
  · rw [if_neg hbounds]
    have hfinish : (match scanServerName (trimTrailingDot raw) [] 0 with
        | none => none
        | some (scratch, labelStart) => finishServerName scratch labelStart) =
        (scanned (trimTrailingDot raw) [] []).bind fun scratch =>
          if couldBeIPv4Literal scratch && validAddr scratch then none else some scratch := by
      simp only [scanned, List.append_nil, List.length_nil]
      cases scanServerName (trimTrailingDot raw) [] 0 with
      | none => rfl
      | some found =>
        obtain ⟨scratch, labelStart⟩ := found
        simp only [finishServerName]
        split_ifs <;> simp_all
    rw [hfinish, hscan]
    by_cases hlabels : (split (foldName raw) 46).all validLabel = true
    · have hvalid : ValidName (foldName raw) := by
        constructor
        · exact List.length_pos_iff.mp (by omega)
        · omega
        · exact hlabels
      rw [if_pos hlabels, Option.bind_some, canonicalName]
      cases haddress : validAddr (foldName raw) with
      | true =>
        rw [couldBeIPv4Literal_of_validAddr hvalid haddress, Bool.and_true, if_pos rfl, if_neg]
        intro hname
        exact Bool.false_ne_true (hname.dns.symm.trans haddress)
      | false =>
        rw [Bool.and_false, if_neg Bool.false_ne_true, if_pos ⟨hvalid, haddress⟩]
    · rw [if_neg hlabels, canonicalName, if_neg fun hname => hlabels hname.labels]
      rfl

theorem canonicalName_eq_some_iff {raw name : Bytes} :
    canonicalName raw = some name ↔ foldName raw = name ∧ ServerName name := by
  unfold canonicalName
  split_ifs with h
  · constructor
    · intro hname
      cases hname
      exact ⟨rfl, h⟩
    · intro hname
      rw [hname.1]
  · constructor
    · intro hname
      contradiction
    · intro hname
      exact absurd (hname.1 ▸ hname.2) h

/-- The text of an exact or wildcard name. -/
def patternText (name : Bytes) (wildcard : Bool) : Bytes :=
  if wildcard then 42 :: 46 :: name else name

/-- No name has an asterisk. -/
theorem ServerName.star_not_mem {name : Bytes} (h : ServerName name) : (42 : UInt8) ∉ name := by
  intro hstar
  rcases exists_mem_split 46 hstar with hdot | ⟨label, hlabel, hmem⟩
  · exact absurd hdot (by decide)
  have hvalid := List.all_eq_true.mp h.labels label hlabel
  simp only [validLabel, Bool.and_eq_true, List.all_eq_true] at hvalid
  exact absurd (hvalid.2 42 hmem) (by decide)

theorem patternText_inj {name other : Bytes} {wildcard starred : Bool} (hname : ServerName name)
    (hother : ServerName other) (h : patternText name wildcard = patternText other starred) :
    name = other ∧ wildcard = starred := by
  cases wildcard <;> cases starred
  · exact ⟨h, rfl⟩
  · change name = 42 :: 46 :: other at h
    exact absurd (h ▸ List.mem_cons_self) hname.star_not_mem
  · change 42 :: 46 :: name = other at h
    exact absurd (h ▸ List.mem_cons_self) hother.star_not_mem
  · exact ⟨(List.cons.inj (List.cons.inj h).2).2, rfl⟩

theorem canonicalPattern_of_not {host : Bytes} (h : ∀ rest, host ≠ 42 :: 46 :: rest) :
    canonicalPattern host = canonicalName host := by
  unfold canonicalPattern
  split
  · exact absurd rfl (h _)
  · rfl

/-- A binding's host is normalized to the pattern it stands for. -/
theorem normalizeBindingHost_eq_some_iff {host name : Bytes} {wildcard : Bool} :
    normalizeBindingHost host = some (name, wildcard) ↔
      canonicalPattern host = some (patternText name wildcard) ∧ ServerName name := by
  simp only [normalizeBindingHost, canonicalizeServerName_eq]
  by_cases hwild : ∃ rest, host = 42 :: 46 :: rest
  · obtain ⟨rest, rfl⟩ := hwild
    have hstarred : hasPrefix (42 :: 46 :: rest) [42, 46] = true := by
      simp [hasPrefix, List.isPrefixOf]
    simp only [hstarred, if_true, List.drop_succ_cons, List.drop_zero, Bool.true_and,
      canonicalPattern]
    cases hraw : canonicalName rest with
    | none => simp
    | some canonical =>
      have hvalid := (canonicalName_eq_some_iff.mp hraw).2
      rw [Option.bind_some]
      by_cases hdot : canonical.contains 46 = true
      · simp only [hdot, Bool.not_true, Bool.false_eq_true, if_false, if_true,
          Option.some.injEq, Prod.mk.injEq]
        constructor
        · rintro ⟨rfl, rfl⟩
          exact ⟨rfl, hvalid⟩
        · rintro ⟨htext, hname⟩
          exact patternText_inj hvalid hname htext
      · rw [Bool.not_eq_true] at hdot
        simp only [hdot, Bool.not_false, if_true, Bool.false_eq_true, if_false, reduceCtorEq,
          false_and]
  · have hshape : ∀ rest, host ≠ 42 :: 46 :: rest := fun rest heq => hwild ⟨rest, heq⟩
    have hplain : hasPrefix host [42, 46] = false := by
      by_contra hstarred
      obtain ⟨rest, hrest⟩ := List.isPrefixOf_iff_prefix.mp (Bool.not_eq_false _ ▸ hstarred)
      exact hshape rest hrest.symm
    rw [canonicalPattern_of_not hshape]
    simp only [hplain, Bool.false_eq_true, if_false, Bool.false_and]
    cases hraw : canonicalName host with
    | none => simp
    | some canonical =>
      have hvalid := (canonicalName_eq_some_iff.mp hraw).2
      simp only [Option.some.injEq, Prod.mk.injEq]
      constructor
      · rintro ⟨rfl, rfl⟩
        exact ⟨rfl, hvalid⟩
      · rintro ⟨htext, hname⟩
        exact patternText_inj hvalid hname htext

end GGateway.DownstreamTLS
