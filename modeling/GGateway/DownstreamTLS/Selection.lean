import GGateway.DownstreamTLS.Bindings

/-!
# Selection by server name

The index holds exactly what a policy binds, so the lookup is the rule of the policy:
the certificate of the exact name, else that of the wildcard for its parent, else the
default.  A certificate is bound only if it covers the name, and the one label that is
tried for a wildcard stands for every other label.
-/

namespace GGateway.DownstreamTLS

open Text Model Library Library.Assoc Library.Checks
open Upstream (validLabel foldName)

/-! ## What a policy says -/

/-- The policy binds the certificate to the pattern. -/
def Bound (policy : DownstreamTLSPolicy) (materials : List (Option Certificate))
    (pattern : Bytes) (certificate : TLSCertificate) : Prop :=
  ∃ binding ∈ policy.sniBindings, ∃ rawHost ∈ binding.hosts,
    canonicalPattern rawHost = some pattern ∧
    ∃ material, some material ∈ materials ∧ material.id = binding.certificateRef ∧
      material.certificate = certificate

/-- The same bindings with the same hosts, in another order. -/
def Reordered (bindings others : List SNIBinding) : Prop :=
  ∃ middle, List.Forall₂ (fun binding other =>
    other.certificateRef = binding.certificateRef ∧ binding.hosts.Perm other.hosts)
      bindings middle ∧ middle.Perm others

/-- The pattern for the other names under the parent of a name of at least two
labels. -/
def wildcardFor (name : Bytes) : Option Bytes :=
  match split name 46 with
  | _ :: second :: rest => some (42 :: 46 :: join (second :: rest) [46])
  | _ => none

/-! ## Acceptance -/

theorem exceedsIndex_eq {count : Nat} (hcount : count ≤ maxSNINames)
    (bindings : List SNIBinding) :
    exceedsIndex count bindings = decide (maxSNINames <
      count + (bindings.flatMap fun binding => binding.hosts.map normalizeBindingHost).length) := by
  induction bindings generalizing count with
  | nil => simp [exceedsIndex, hcount]
  | cons binding rest ih =>
    rw [exceedsIndex, List.flatMap_cons, List.length_append, List.length_map]
    by_cases hmany : maxSNINames < count + binding.hosts.length
    · rw [if_pos hmany]
      symm
      rw [decide_eq_true_eq]
      omega
    · rw [if_neg hmany, ih (by omega), Nat.add_assoc]

variable {materialByID : List (Bytes × Certificate)} {fallback certificate : TLSCertificate}
  {name parent raw : Bytes}

section Compiled

variable {sameIP : Bytes → Bytes → Bool} {policy : DownstreamTLSPolicy}
  {materials : List (Option Certificate)} {now : Int} {selector : Selector}

def emptyIndex : Index :=
  ⟨[], [], [], ⟨0, 0, 0, 0⟩⟩

/-- What `compile` asks for, without regard to the order of bindings and hosts. -/
structure Accepted (sameIP : Bytes → Bytes → Bool) (policy : DownstreamTLSPolicy)
    (now : Int) (materialByID : List (Bytes × Certificate))
    (fallback : TLSCertificate) : Prop where
  size : (policy.sniBindings.flatMap fun binding =>
    binding.hosts.map normalizeBindingHost).length ≤ maxSNINames
  reference : policy.defaultCertificateRef ≠ []
  fallback : resolve materialByID now policy.defaultCertificateRef = some fallback
  bindings : BindingsFit sameIP materialByID now policy.sniBindings emptyIndex

theorem identified_of_indexMaterials (h : indexMaterials materials [] = .ok materialByID) :
    Identified materialByID := by
  intro id material hmaterial
  rcases (lookup_indexMaterials h id material).mp hmaterial with hseen | ⟨_, hid⟩
  · exact nomatch hseen
  · exact hid

theorem emptyIndex_agrees (materialByID : List (Bytes × Certificate)) (now : Int) :
    emptyIndex.Agrees materialByID now := by
  intro id certificate hcertificate
  exact nomatch hcertificate

theorem find_emptyIndex (key : Key) : emptyIndex.find key = none := by
  unfold Index.find emptyIndex
  split_ifs <;> rfl

/-- A compiled selector and the policy it was compiled from. -/
theorem compile_eq_ok (h : compile sameIP (some policy) materials now = .ok selector) :
    ∃ materialByID fallback, indexMaterials materials [] = .ok materialByID ∧
      Accepted sameIP policy now materialByID fallback ∧
      selector.defaultCertificate = some fallback ∧
      ∀ key found, selector.index.find key = some found ↔
        Binds materialByID now policy.sniBindings key found := by
  simp only [compile, bind_eq_ok, demand_eq_ok, require_eq_ok, Option.some.injEq] at h
  obtain ⟨_, rfl, _, hsize, materialByID, hmaterials, material, hdefault, ⟨fallback, index⟩,
    hfallback, final, hfinal, hselector⟩ := h
  have hids := identified_of_indexMaterials hmaterials
  split_ifs at hdefault with hreference
  obtain ⟨hresolve, hagrees, hfind⟩ := compileCertificate_spec
    (emptyIndex_agrees materialByID now) hdefault (hids _ _ hdefault) hfallback
  obtain ⟨hbindings, hfound⟩ := bindAll_eq_ok hids hagrees hfinal
  cases hselector
  refine ⟨materialByID, fallback, hmaterials, ⟨?_, hreference, hresolve, ?_⟩, rfl, ?_⟩
  · rw [exceedsIndex_eq (Nat.zero_le _)] at hsize
    simpa using hsize
  · exact ⟨hbindings.each, hbindings.distinct, fun binding hbinding rawHost hraw key _ =>
      find_emptyIndex key⟩
  · intro key found
    rw [hfound, hfind, find_emptyIndex]
    simp

theorem compile_of_accepted (hmaterials : indexMaterials materials [] = .ok materialByID)
    (h : Accepted sameIP policy now materialByID fallback) :
    ∃ selector, compile sameIP (some policy) materials now = .ok selector := by
  have hids := identified_of_indexMaterials hmaterials
  have hagrees := emptyIndex_agrees materialByID now
  cases hdefault : materialByID.lookup policy.defaultCertificateRef with
  | none =>
    have hfallback := h.fallback
    simp [resolve, hdefault] at hfallback
  | some material =>
    obtain ⟨⟨found, index⟩, hfound⟩ := (compileCertificate_ok_iff hagrees hdefault
      (hids _ _ hdefault)).mpr ⟨fallback, h.fallback⟩
    obtain ⟨_, hindex, hfind⟩ :=
      compileCertificate_spec hagrees hdefault (hids _ _ hdefault) hfound
    obtain ⟨final, hfinal⟩ := bindAll_of_fits hids hindex
      (⟨h.bindings.each, h.bindings.distinct, hfind ▸ h.bindings.free⟩ :
        BindingsFit sameIP materialByID now policy.sniBindings index)
    refine ⟨⟨some found, final⟩, ?_⟩
    simp only [compile, bind_eq_ok, demand_eq_ok, require_eq_ok]
    refine ⟨policy, rfl, (), ?_, materialByID, hmaterials, material, ?_, (found, index), hfound,
      final, hfinal, rfl⟩
    · rw [exceedsIndex_eq (Nat.zero_le _)]
      have hsize := h.size
      simpa using hsize
    · rw [if_neg h.reference]
      exact hdefault

/-! ## Bound certificates -/

theorem resolve_eq_some {reference : Bytes}
    (h : resolve materialByID now reference = some certificate) :
    ∃ material, materialByID.lookup reference = some material ∧
      material.certificate = certificate := by
  unfold resolve at h
  split at h
  · contradiction
  rename_i material hmaterial
  split_ifs at h
  exact ⟨material, hmaterial, Option.some.inj h⟩

/-- The index holds exactly what the policy binds. -/
theorem binds_iff_bound (hmaterials : indexMaterials materials [] = .ok materialByID)
    (h : Accepted sameIP policy now materialByID fallback) (hname : ServerName name)
    {wildcard : Bool} :
    Binds materialByID now policy.sniBindings (name, wildcard) certificate ↔
      Bound policy materials (patternText name wildcard) certificate := by
  have hlookup : ∀ id material, materialByID.lookup id = some material ↔
      some material ∈ materials ∧ material.id = id := by
    intro id material
    rw [lookup_indexMaterials hmaterials]
    simp
  constructor
  · rintro ⟨binding, hbinding, hresolve, rawHost, hraw, hkey⟩
    obtain ⟨material, hmaterial, hcertificate⟩ := resolve_eq_some hresolve
    obtain ⟨hmem, hid⟩ := (hlookup _ material).mp hmaterial
    exact ⟨binding, hbinding, rawHost, hraw, (normalizeBindingHost_eq_some_iff.mp hkey).1,
      material, hmem, hid, hcertificate⟩
  · rintro ⟨binding, hbinding, rawHost, hraw, hpattern, material, hmem, hid, rfl⟩
    obtain ⟨found, hresolve, _⟩ := (h.bindings.each binding hbinding).covered
    obtain ⟨other, hother, hfound⟩ := resolve_eq_some hresolve
    have hmaterial := (hlookup _ material).mpr ⟨hmem, hid⟩
    obtain rfl := Option.some.inj (hmaterial.symm.trans hother)
    rw [← hfound] at hresolve
    exact ⟨binding, hbinding, hresolve, rawHost, hraw,
      normalizeBindingHost_eq_some_iff.mpr ⟨hpattern, hname⟩⟩

/-- Only a certificate that covers the name is bound to it. -/
theorem covers_of_binds (h : Accepted sameIP policy now materialByID fallback) {key : Key}
    (hbinds : Binds materialByID now policy.sniBindings key certificate) :
    certificateCoversHost sameIP certificate key.1 key.2 = true := by
  obtain ⟨binding, hbinding, hresolve, rawHost, hraw, hkey⟩ := hbinds
  obtain ⟨found, hfound, hcovered⟩ := (h.bindings.each binding hbinding).covered
  obtain rfl := Option.some.inj (hresolve.symm.trans hfound)
  obtain ⟨other, hother, hcovers⟩ := hcovered rawHost hraw
  obtain rfl := Option.some.inj (hkey.symm.trans hother)
  exact hcovers

/-! ## Parents -/

theorem join_ne_nil {pieces : List Bytes} (hpieces : pieces ≠ [])
    (h : ∀ piece ∈ pieces, piece ≠ []) : join pieces [46] ≠ [] := by
  cases pieces with
  | nil => exact absurd rfl hpieces
  | cons first rest =>
    have hfirst := h first List.mem_cons_self
    cases rest with
    | nil => simpa [join] using hfirst
    | cons second others => simp [join, List.intercalate_cons_cons, hfirst]

theorem parentName_eq (h : ServerName name) :
    (parentName name).map (42 :: 46 :: ·) = wildcardFor name := by
  have hname : join (split name 46) [46] = name := List.intercalate_splitOn 46
  have hlabels : ∀ label ∈ split name 46, label ≠ [] ∧ (46 : UInt8) ∉ label := by
    intro label hlabel
    have hvalid := List.all_eq_true.mp h.labels label hlabel
    constructor
    · rintro rfl
      exact absurd hvalid (by decide)
    · exact fun hdot => (mem_of_mem_split label hlabel).2 46 hdot |>.2 rfl
  unfold wildcardFor
  obtain ⟨first, rest, hpieces⟩ := exists_split_eq_cons name 46
  rw [hpieces] at hname hlabels ⊢
  obtain ⟨⟨hfirst, hdot⟩, hrest⟩ := List.forall_mem_cons.mp hlabels
  have hnone : first.findIdx? (· == 46) = none := by
    rw [List.findIdx?_eq_none_iff]
    intro byte hbyte
    rw [beq_eq_false_iff_ne]
    rintro rfl
    exact hdot hbyte
  cases rest with
  | nil =>
    have hsingle : name = first := by simpa [join] using hname.symm
    have hindex : indexByte name 46 = none := by rw [hsingle, indexByte, hnone]
    simp [parentName, hindex]
  | cons second others =>
    have hparent : name = first ++ 46 :: join (second :: others) [46] := by
      rw [← hname]
      simp [join, List.intercalate_cons_cons]
    have hmore : join (second :: others) [46] ≠ [] :=
      join_ne_nil (List.cons_ne_nil _ _) fun piece hpiece => (hrest piece hpiece).1
    have hindex : indexByte name 46 = some first.length := by
      rw [hparent, indexByte, List.findIdx?_append, hnone]
      simp [List.findIdx?_cons]
    have hpos := List.length_pos_iff.mpr hfirst
    have hlonger := List.length_pos_iff.mpr hmore
    have hlength : first.length + 1 < name.length := by
      rw [hparent, List.length_append, List.length_cons]
      omega
    have hdrop : name.drop (first.length + 1) = join (second :: others) [46] := by
      rw [hparent, ← List.drop_drop, List.drop_left]
      rfl
    simp only [parentName, hindex, hpos, hlength, true_and, if_true, hdrop, Option.map_some]

/-- The labels of the parent are those of the name after the first. -/
theorem split_of_parentName (h : parentName name = some parent) :
    ∃ first, split name 46 = first :: split parent 46 := by
  unfold parentName at h
  split at h
  · contradiction
  rename_i separator hseparator
  split_ifs at h
  cases h
  obtain ⟨hlt, hat, hbefore⟩ := mem_of_getElem?_indexByte hseparator
  have hdot : name[separator] = 46 := by
    rw [List.getElem?_eq_getElem hlt] at hat
    exact Option.some.inj hat
  have hnot : (46 : UInt8) ∉ name.take separator := by
    intro hmem
    obtain ⟨earlier, hearlier⟩ := List.mem_iff_getElem?.mp hmem
    have hless : earlier < separator := by
      have hbound := (List.getElem?_eq_some_iff.mp hearlier).1
      rw [List.length_take] at hbound
      omega
    rw [List.getElem?_take_of_lt hless] at hearlier
    exact hbefore earlier hless hearlier
  have hname : name = name.take separator ++ 46 :: name.drop (separator + 1) := by
    rw [← hdot, List.cons_getElem_drop_succ, List.take_append_drop]
  refine ⟨name.take separator, ?_⟩
  conv_lhs => rw [hname]
  exact split_append_cons _ hnot _

/-! ## The requested name -/

theorem exists_star_of_wildcard {host suffix : Bytes}
    (h : normalizeBindingHost host = some (suffix, true)) : ∃ rest, host = 42 :: 46 :: rest := by
  by_contra hnot
  have hshape : ∀ rest, host ≠ 42 :: 46 :: rest := fun rest heq => hnot ⟨rest, heq⟩
  obtain ⟨hpattern, _⟩ := normalizeBindingHost_eq_some_iff.mp h
  rw [canonicalPattern_of_not hshape] at hpattern
  exact (canonicalName_eq_some_iff.mp hpattern).2.star_not_mem List.mem_cons_self

/-- A certificate that covers a wildcard verifies every name under it. -/
theorem verifyHostname_of_wildcard {leaf : Leaf} (hleaf : certificate.leaf = some leaf)
    (hname : canonicalName raw = some name) (hparent : parentName name = some parent)
    (hcovers : certificateCoversHost sameIP certificate parent true = true) :
    verifyHostname sameIP leaf raw = true := by
  simp only [certificateCoversHost, hleaf, Bool.not_true, Bool.false_eq_true, if_false,
    List.any_eq_true] at hcovers
  obtain ⟨dnsName, hmem, hdns⟩ := hcovers
  split at hdns
  · rename_i suffix hsuffix
    rw [Bool.and_eq_true, beq_iff_eq] at hdns
    obtain ⟨rfl, hsample⟩ := hdns
    obtain ⟨rest, rfl⟩ := exists_star_of_wildcard hsuffix
    obtain ⟨_, hserver⟩ := normalizeBindingHost_eq_some_iff.mp hsuffix
    obtain ⟨hvalid, hsplit⟩ := pattern_of_sample hserver.labels hsample
    obtain ⟨first, hfirst⟩ := split_of_parentName hparent
    refine verifyHostname_of_pattern hname hmem hvalid ?_
    rw [hsplit, hfirst]
    simp [matchLabels]
  · exact absurd hdns Bool.false_ne_true

theorem verifyHostname_of_exact {leaf : Leaf} (hleaf : certificate.leaf = some leaf)
    (hname : canonicalName raw = some name)
    (hcovers : certificateCoversHost sameIP certificate name false = true) :
    verifyHostname sameIP leaf raw = true := by
  simp only [certificateCoversHost, hleaf, Bool.not_false, if_true] at hcovers
  exact verifyHostname_of_canonical hname hcovers

theorem exists_leaf_of_covers {canonical : Bytes} {wildcard : Bool}
    (h : certificateCoversHost sameIP certificate canonical wildcard = true) :
    ∃ leaf, certificate.leaf = some leaf := by
  unfold certificateCoversHost at h
  split at h
  · contradiction
  · rename_i leaf hleaf
    exact ⟨leaf, hleaf⟩

end Compiled

/-! ## Select -/

/-- `Select` in terms of the index as a map. -/
def Selector.choose (selector : Selector) (fallback : TLSCertificate) (raw : Bytes) :
    TLSCertificate × Selection :=
  match canonicalName raw with
  | none => (fallback, .default)
  | some name =>
    match selector.index.find (name, false) with
    | some certificate => (certificate, .exact)
    | none =>
      match (parentName name).bind fun parent => selector.index.find (parent, true) with
      | some certificate => (certificate, .wildcard)
      | none => (fallback, .default)

theorem canonicalName_nil : canonicalName [] = none := by
  decide

theorem select_eq {selector : Selector} (h : selector.defaultCertificate = some fallback)
    (raw : Bytes) : selector.select (some raw) = .ok (selector.choose fallback raw) := by
  unfold Selector.select Selector.choose
  rw [h]
  dsimp only
  by_cases hempty : raw = []
  · subst hempty
    rw [if_pos rfl, canonicalName_nil]
  rw [if_neg hempty, canonicalizeServerName_eq]
  cases canonicalName raw with
  | none => rfl
  | some name =>
    have hexact : selector.index.find (name, false) = selector.index.exact.lookup name := rfl
    have hwild : ∀ parent, selector.index.find (parent, true) =
        selector.index.wildcard.lookup parent := fun _ => rfl
    simp only [hexact, hwild]
    cases selector.index.exact.lookup name with
    | some certificate => rfl
    | none =>
      cases (parentName name).bind fun parent => selector.index.wildcard.lookup parent <;> rfl

theorem select_none {selector : Selector} (h : selector.defaultCertificate = some fallback) :
    selector.select none = .ok (fallback, .default) := by
  rw [Selector.select, h]

/-! ## Order -/

section Order

variable {bindings others : List SNIBinding}

theorem Reordered.symm (h : Reordered bindings others) : Reordered others bindings := by
  obtain ⟨middle, hmiddle, hperm⟩ := h
  have hback : List.Forall₂ (fun binding other : SNIBinding =>
      other.certificateRef = binding.certificateRef ∧ binding.hosts.Perm other.hosts)
        middle bindings :=
    hmiddle.flip.imp fun _ _ hpair => ⟨hpair.1.symm, hpair.2.symm⟩
  exact List.perm_comp_forall₂ hperm.symm hback

theorem perm_of_forall₂ (h : List.Forall₂ (fun binding other : SNIBinding =>
      other.certificateRef = binding.certificateRef ∧ binding.hosts.Perm other.hosts)
        bindings others) :
    (bindings.flatMap fun binding => binding.hosts.map normalizeBindingHost).Perm
      (others.flatMap fun binding => binding.hosts.map normalizeBindingHost) := by
  induction h with
  | nil => exact List.Perm.refl _
  | cons hfirst _ ih =>
    rw [List.flatMap_cons, List.flatMap_cons]
    exact (hfirst.2.map _).append ih

theorem Reordered.perm (h : Reordered bindings others) :
    (bindings.flatMap fun binding => binding.hosts.map normalizeBindingHost).Perm
      (others.flatMap fun binding => binding.hosts.map normalizeBindingHost) := by
  obtain ⟨middle, hmiddle, hperm⟩ := h
  exact (perm_of_forall₂ hmiddle).trans (hperm.flatMap_right _)

theorem exists_of_forall₂ (h : List.Forall₂ (fun binding other : SNIBinding =>
      other.certificateRef = binding.certificateRef ∧ binding.hosts.Perm other.hosts)
        bindings others) :
    ∀ binding ∈ bindings, ∃ other ∈ others, other.certificateRef = binding.certificateRef ∧
      binding.hosts.Perm other.hosts := by
  induction h with
  | nil => exact fun _ hmem => absurd hmem List.not_mem_nil
  | cons hfirst _ ih =>
    intro binding hbinding
    rcases List.mem_cons.mp hbinding with rfl | hrest
    · exact ⟨_, List.mem_cons_self, hfirst⟩
    · obtain ⟨other, hother, hpair⟩ := ih binding hrest
      exact ⟨other, List.mem_cons_of_mem _ hother, hpair⟩

/-- Each binding of one list stands in the other, with its hosts in some order. -/
theorem Reordered.exists_of_mem (h : Reordered bindings others) {binding : SNIBinding}
    (hbinding : binding ∈ bindings) :
    ∃ other ∈ others, other.certificateRef = binding.certificateRef ∧
      binding.hosts.Perm other.hosts := by
  obtain ⟨middle, hmiddle, hperm⟩ := h
  obtain ⟨other, hother, hpair⟩ := exists_of_forall₂ hmiddle binding hbinding
  exact ⟨other, hperm.mem_iff.mp hother, hpair⟩

variable {materialByID : List (Bytes × Certificate)} {now : Int}

theorem Reordered.binds (h : Reordered bindings others) {key : Key}
    (hbinds : Binds materialByID now bindings key certificate) :
    Binds materialByID now others key certificate := by
  obtain ⟨binding, hbinding, hresolve, rawHost, hraw, hkey⟩ := hbinds
  obtain ⟨other, hother, hreference, hhosts⟩ := h.exists_of_mem hbinding
  rw [← hreference] at hresolve
  exact ⟨other, hother, hresolve, rawHost, hhosts.mem_iff.mp hraw, hkey⟩

theorem Reordered.bindingFits {sameIP : Bytes → Bytes → Bool} (h : Reordered bindings others)
    (hfits : ∀ other ∈ others, BindingFits sameIP materialByID now other) {binding : SNIBinding}
    (hbinding : binding ∈ bindings) : BindingFits sameIP materialByID now binding := by
  obtain ⟨other, hother, hreference, hhosts⟩ := h.exists_of_mem hbinding
  obtain ⟨hnonempty, hsome, certificate, hresolve, hcovered⟩ := hfits other hother
  rw [hreference] at hnonempty hresolve
  constructor
  · exact hnonempty
  · rintro hempty
    rw [hempty] at hhosts
    exact hsome hhosts.symm.eq_nil
  · exact ⟨certificate, hresolve, fun rawHost hraw => hcovered rawHost (hhosts.mem_iff.mp hraw)⟩

/-- Acceptance does not depend on the order. -/
theorem Reordered.accepted {sameIP : Bytes → Bytes → Bool} {policy other : DownstreamTLSPolicy}
    (h : Reordered policy.sniBindings other.sniBindings)
    (hdefault : other.defaultCertificateRef = policy.defaultCertificateRef)
    (haccepted : Accepted sameIP policy now materialByID fallback) :
    Accepted sameIP other now materialByID fallback := by
  constructor
  · exact h.perm.length_eq ▸ haccepted.size
  · exact hdefault ▸ haccepted.reference
  · exact hdefault ▸ haccepted.fallback
  · constructor
    · exact fun binding hbinding => h.symm.bindingFits haccepted.bindings.each hbinding
    · exact h.perm.nodup_iff.mp haccepted.bindings.distinct
    · exact fun _ _ _ _ key _ => find_emptyIndex key

end Order

/-! ## The rule -/

/-- The certificate and the class that the policy gives to a requested name. -/
structure Selected (policy : DownstreamTLSPolicy) (materials : List (Option Certificate))
    (fallback : TLSCertificate) (raw : Bytes) (certificate : TLSCertificate)
    (selection : Selection) : Prop where
  /-- Empty, malformed and IP-literal names take the default. -/
  unnamed : canonicalName raw = none → certificate = fallback ∧ selection = .default
  bound : ∀ name bound, canonicalName raw = some name → Bound policy materials name bound →
    certificate = bound ∧ selection = .exact
  under : ∀ name pattern bound, canonicalName raw = some name →
    (∀ other, ¬Bound policy materials name other) → wildcardFor name = some pattern →
    Bound policy materials pattern bound → certificate = bound ∧ selection = .wildcard
  unbound : ∀ name, canonicalName raw = some name →
    (∀ other, ¬Bound policy materials name other) →
    (∀ pattern, wildcardFor name = some pattern → ∀ other, ¬Bound policy materials pattern other) →
    certificate = fallback ∧ selection = .default

section Rule

variable {sameIP : Bytes → Bytes → Bool} {policy : DownstreamTLSPolicy}
  {materials : List (Option Certificate)} {now : Int} {selector : Selector}
  {materialByID : List (Bytes × Certificate)} {fallback : TLSCertificate}

/-- The name under a wildcard pattern is a server name. -/
theorem serverName_of_pattern {host : Bytes}
    (h : canonicalPattern host = some (42 :: 46 :: parent)) : ServerName parent := by
  by_cases hstar : ∃ rest, host = 42 :: 46 :: rest
  · obtain ⟨rest, rfl⟩ := hstar
    rw [canonicalPattern, Option.bind_eq_some_iff] at h
    obtain ⟨name, hname, h⟩ := h
    split_ifs at h
    obtain rfl : name = parent := by simpa using h
    exact (canonicalName_eq_some_iff.mp hname).2
  · rw [canonicalPattern_of_not fun rest heq => hstar ⟨rest, heq⟩] at h
    exact absurd List.mem_cons_self (canonicalName_eq_some_iff.mp h).2.star_not_mem

/-- What the index holds for the parent is what the policy binds to the wildcard. -/
theorem binds_wildcard_iff (hmaterials : indexMaterials materials [] = .ok materialByID)
    (h : Accepted sameIP policy now materialByID fallback) :
    Binds materialByID now policy.sniBindings (parent, true) certificate ↔
      Bound policy materials (42 :: 46 :: parent) certificate := by
  constructor
  · intro hbinds
    obtain ⟨_, _, _, _, _, hkey⟩ := id hbinds
    exact (binds_iff_bound hmaterials h (normalizeBindingHost_eq_some_iff.mp hkey).2).mp hbinds
  · intro hbound
    obtain ⟨_, _, _, _, hpattern, _⟩ := id hbound
    exact (binds_iff_bound hmaterials h (serverName_of_pattern hpattern)).mpr hbound

theorem choose_cases (selector : Selector) (fallback : TLSCertificate)
    (hname : canonicalName raw = some name) :
    (∃ certificate, selector.index.find (name, false) = some certificate ∧
      selector.choose fallback raw = (certificate, .exact)) ∨
    (∃ parent certificate, selector.index.find (name, false) = none ∧
      parentName name = some parent ∧ selector.index.find (parent, true) = some certificate ∧
      selector.choose fallback raw = (certificate, .wildcard)) ∨
    (selector.index.find (name, false) = none ∧
      (∀ parent, parentName name = some parent → selector.index.find (parent, true) = none) ∧
      selector.choose fallback raw = (fallback, .default)) := by
  unfold Selector.choose
  rw [hname]
  dsimp only
  cases selector.index.find (name, false) with
  | some certificate => exact .inl ⟨certificate, rfl, rfl⟩
  | none =>
    right
    cases parentName name with
    | none => exact .inr ⟨rfl, fun _ habsent => absurd habsent (by simp), rfl⟩
    | some parent =>
      rw [Option.bind_some]
      cases hparent : selector.index.find (parent, true) with
      | some certificate => exact .inl ⟨parent, certificate, rfl, rfl, hparent, rfl⟩
      | none =>
        refine .inr ⟨rfl, ?_, rfl⟩
        rintro other ⟨⟩
        exact hparent

theorem choose_selected (hmaterials : indexMaterials materials [] = .ok materialByID)
    (haccepted : Accepted sameIP policy now materialByID fallback)
    (hfind : ∀ key found, selector.index.find key = some found ↔
      Binds materialByID now policy.sniBindings key found) (raw : Bytes) :
    Selected policy materials fallback raw (selector.choose fallback raw).1
      (selector.choose fallback raw).2 := by
  have hexact : ∀ {name certificate}, canonicalName raw = some name →
      (selector.index.find (name, false) = some certificate ↔
        Bound policy materials name certificate) := by
    intro name certificate hname
    rw [hfind]
    exact binds_iff_bound hmaterials haccepted (canonicalName_eq_some_iff.mp hname).2
  have hwildcard : ∀ {parent certificate}, selector.index.find (parent, true) = some certificate ↔
      Bound policy materials (42 :: 46 :: parent) certificate := by
    intro parent certificate
    rw [hfind]
    exact binds_wildcard_iff hmaterials haccepted
  have hparents : ∀ {name pattern}, canonicalName raw = some name →
      (wildcardFor name = some pattern ↔
        ∃ parent, parentName name = some parent ∧ 42 :: 46 :: parent = pattern) := by
    intro name pattern hname
    rw [← parentName_eq (canonicalName_eq_some_iff.mp hname).2, Option.map_eq_some_iff]
  constructor
  case unnamed =>
    intro hnone
    simp [Selector.choose, hnone]
  case bound =>
    intro name bound hname hbound
    have hfound := (hexact hname).mpr hbound
    simp [Selector.choose, hname, hfound]
  case under =>
    intro name pattern bound hname hfree hpattern hbound
    obtain ⟨parent, hparent, rfl⟩ := (hparents hname).mp hpattern
    have hfound := hwildcard.mpr hbound
    have hmissing : selector.index.find (name, false) = none :=
      Option.eq_none_iff_forall_ne_some.mpr fun other hother => hfree other ((hexact hname).mp hother)
    simp [Selector.choose, hname, hmissing, hparent, hfound]
  case unbound =>
    intro name hname hfree hunder
    rcases choose_cases selector fallback hname with
      ⟨certificate, hfound, _⟩ | ⟨parent, certificate, _, hparent, hfound, _⟩ | ⟨_, _, hchoose⟩
    · exact absurd ((hexact hname).mp hfound) (hfree certificate)
    · exact absurd (hwildcard.mp hfound)
        (hunder _ ((hparents hname).mpr ⟨parent, hparent, rfl⟩) certificate)
    · rw [hchoose]
      exact ⟨rfl, rfl⟩

/-- A certificate that is not the default verifies the requested name. -/
theorem choose_verifies (haccepted : Accepted sameIP policy now materialByID fallback)
    (hfind : ∀ key found, selector.index.find key = some found ↔
      Binds materialByID now policy.sniBindings key found)
    (hselection : (selector.choose fallback raw).2 ≠ .default) :
    ∃ leaf, (selector.choose fallback raw).1.leaf = some leaf ∧
      verifyHostname sameIP leaf raw = true := by
  cases hname : canonicalName raw with
  | none => exact absurd (by simp [Selector.choose, hname]) hselection
  | some name =>
    rcases choose_cases selector fallback hname with
      ⟨certificate, hfound, hchoose⟩ | ⟨parent, certificate, _, hparent, hfound, hchoose⟩ |
        ⟨_, _, hchoose⟩
    · have hcovers := covers_of_binds haccepted ((hfind _ _).mp hfound)
      obtain ⟨leaf, hleaf⟩ := exists_leaf_of_covers hcovers
      rw [hchoose]
      exact ⟨leaf, hleaf, verifyHostname_of_exact hleaf hname hcovers⟩
    · have hcovers := covers_of_binds haccepted ((hfind _ _).mp hfound)
      obtain ⟨leaf, hleaf⟩ := exists_leaf_of_covers hcovers
      rw [hchoose]
      exact ⟨leaf, hleaf, verifyHostname_of_wildcard hleaf hname hparent hcovers⟩
    · rw [hchoose] at hselection
      exact absurd rfl hselection

theorem Reordered.compiled {other : DownstreamTLSPolicy}
    (h : Reordered policy.sniBindings other.sniBindings)
    (hdefault : other.defaultCertificateRef = policy.defaultCertificateRef)
    (hcompile : compile sameIP (some policy) materials now = .ok selector) :
    ∃ another, compile sameIP (some other) materials now = .ok another ∧
      ∀ hello, another.select hello = selector.select hello := by
  obtain ⟨materialByID, fallback, hmaterials, haccepted, hfallback, hfind⟩ := compile_eq_ok hcompile
  obtain ⟨another, hanother⟩ :=
    compile_of_accepted hmaterials (h.accepted hdefault haccepted)
  obtain ⟨materialByID', fallback', hmaterials', haccepted', hfallback', hfind'⟩ :=
    compile_eq_ok hanother
  obtain rfl : materialByID = materialByID' := Except.ok.inj (hmaterials.symm.trans hmaterials')
  obtain rfl : fallback = fallback' := by
    have hresolve := haccepted'.fallback
    rw [hdefault, haccepted.fallback] at hresolve
    exact Option.some.inj hresolve
  have hsame : ∀ key, another.index.find key = selector.index.find key := by
    intro key
    ext found
    rw [hfind, hfind']
    exact ⟨h.symm.binds, h.binds⟩
  refine ⟨another, hanother, ?_⟩
  rintro (_ | raw)
  · rw [select_none hfallback, select_none hfallback']
  · rw [select_eq hfallback, select_eq hfallback']
    simp only [Selector.choose, hsame]

end Rule

/-! ## The contract -/

/-- Selection follows the policy, never fails, never serves a bound certificate that
does not verify the requested name, and does not depend on the order of bindings and
hosts. -/
theorem sni_selection_correct (sameIP : Bytes → Bytes → Bool) (policy : DownstreamTLSPolicy)
    (materials : List (Option Certificate)) (now : Int) :
    (∀ selector, compile sameIP (some policy) materials now = .ok selector →
      ∃ fallback, (∃ material, some material ∈ materials ∧
          material.id = policy.defaultCertificateRef ∧ material.certificate = fallback) ∧
        selector.select none = .ok (fallback, .default) ∧
        ∀ raw, ∃ certificate selection, selector.select (some raw) = .ok (certificate, selection) ∧
          Selected policy materials fallback raw certificate selection ∧
          (selection ≠ .default → ∃ leaf, certificate.leaf = some leaf ∧
            verifyHostname sameIP leaf raw = true)) ∧
    ∀ other : DownstreamTLSPolicy, other.defaultCertificateRef = policy.defaultCertificateRef →
      Reordered policy.sniBindings other.sniBindings →
        ((∃ selector, compile sameIP (some policy) materials now = .ok selector) ↔
          ∃ selector, compile sameIP (some other) materials now = .ok selector) ∧
        ∀ selector another, compile sameIP (some policy) materials now = .ok selector →
          compile sameIP (some other) materials now = .ok another →
          ∀ hello, another.select hello = selector.select hello := by
  constructor
  · intro selector hcompile
    obtain ⟨materialByID, fallback, hmaterials, haccepted, hfallback, hfind⟩ :=
      compile_eq_ok hcompile
    refine ⟨fallback, ?_, select_none hfallback, ?_⟩
    · obtain ⟨material, hmaterial, hcertificate⟩ := resolve_eq_some haccepted.fallback
      rcases (lookup_indexMaterials hmaterials _ _).mp hmaterial with hseen | ⟨hmem, hid⟩
      · exact nomatch hseen
      · exact ⟨material, hmem, hid, hcertificate⟩
    · intro raw
      exact ⟨_, _, select_eq hfallback raw, choose_selected hmaterials haccepted hfind raw,
        choose_verifies haccepted hfind⟩
  · intro other hdefault hreordered
    constructor
    · constructor
      · rintro ⟨selector, hcompile⟩
        obtain ⟨another, hanother, _⟩ := hreordered.compiled hdefault hcompile
        exact ⟨another, hanother⟩
      · rintro ⟨another, hcompile⟩
        obtain ⟨selector, hselector, _⟩ := hreordered.symm.compiled hdefault.symm hcompile
        exact ⟨selector, hselector⟩
    · intro selector another hcompile hanother
      obtain ⟨found, hfound, hselect⟩ := hreordered.compiled hdefault hcompile
      obtain rfl := Except.ok.inj (hfound.symm.trans hanother)
      exact hselect

/-- A name and a wildcard on one certificate, and a name under the wildcard on another. -/
def samplePolicy : DownstreamTLSPolicy :=
  ⟨ascii "edge", [⟨ascii "edge", [ascii "WWW.example.com", ascii "*.example.org"]⟩,
    ⟨ascii "api", [ascii "api.example.org"]⟩]⟩

def sampleMaterials : List (Option Certificate) :=
  [some ⟨ascii "edge", [[1]], some ⟨0, 9, [ascii "www.example.com", ascii "*.Example.org"], []⟩⟩,
    some ⟨ascii "api", [[2]], some ⟨0, 9, [ascii "*.example.org"], []⟩⟩]

def reorderedPolicy : DownstreamTLSPolicy :=
  ⟨ascii "edge", [⟨ascii "api", [ascii "api.example.org"]⟩,
    ⟨ascii "edge", [ascii "*.example.org", ascii "WWW.example.com"]⟩]⟩

theorem reordered_sample : Reordered samplePolicy.sniBindings reorderedPolicy.sniBindings := by
  refine ⟨reorderedPolicy.sniBindings.reverse, ?_, List.reverse_perm _⟩
  refine .cons ⟨rfl, List.Perm.swap _ _ _⟩ (.cons ⟨rfl, List.Perm.refl _⟩ .nil)

theorem sni_selection_correct_sample :
    ∃ selector another, compile (fun _ _ => false) (some samplePolicy) sampleMaterials 5 =
        .ok selector ∧
      compile (fun _ _ => false) (some reorderedPolicy) sampleMaterials 5 = .ok another ∧
      (∀ hello, another.select hello = selector.select hello) ∧
      ∃ certificate leaf, selector.select (some (ascii "Blog.Example.Org")) =
          .ok (certificate, .wildcard) ∧ certificate.leaf = some leaf ∧
        verifyHostname (fun _ _ => false) leaf (ascii "Blog.Example.Org") = true := by
  obtain ⟨hrule, horder⟩ := sni_selection_correct (fun _ _ => false) samplePolicy sampleMaterials 5
  have hyields : yields (compile (fun _ _ => false) (some samplePolicy) sampleMaterials 5)
      (fun selector => yields (selector.select (some (ascii "Blog.Example.Org")))
        fun selected => selected.2 = .wildcard) = true := by
    decide +kernel
  obtain ⟨selector, hselector, hyields⟩ := exists_of_yields hyields
  obtain ⟨⟨certificate, selection⟩, hselect, hselection⟩ := exists_of_yields hyields
  obtain rfl : selection = .wildcard := of_decide_eq_true hselection
  obtain ⟨fallback, _, _, hnames⟩ := hrule selector hselector
  obtain ⟨found, class', hfound, _, hverifies⟩ := hnames (ascii "Blog.Example.Org")
  obtain ⟨rfl, rfl⟩ := Prod.mk.inj (Except.ok.inj (hselect.symm.trans hfound))
  obtain ⟨leaf, hleaf, hverify⟩ := hverifies (by decide)
  obtain ⟨halike, hsame⟩ := horder reorderedPolicy rfl reordered_sample
  obtain ⟨another, hanother⟩ := halike.mp ⟨selector, hselector⟩
  exact ⟨selector, another, hselector, hanother, hsame selector another hselector hanother,
    certificate, leaf, hselect, hleaf, hverify⟩

end GGateway.DownstreamTLS
