import GGateway.DownstreamTLS.Selector

/-!
# Which policies are accepted

`compile` goes through the bindings and their hosts in order and stops at the first
conflict.  Whether it reaches the end does not depend on that order:

* `HostsFit` and `BindingsFit` are what is asked of the hosts of one binding and of
  all bindings, as statements about members and about repetitions;
* `bindAll_eq_ok` and `bindAll_of_fits` show that the loops succeed exactly then, and
  that the index then holds what the bindings bind.
-/

namespace GGateway.DownstreamTLS

open Text Model Library Library.Assoc Library.Checks

/-! ## The index -/

variable {index : Index} {certificate : TLSCertificate}

theorem find_insert {key : Key} (hfree : index.find key = none) (certificate : TLSCertificate)
    (other : Key) :
    (index.insert key certificate).find other =
      if other = key then some certificate else index.find other := by
  obtain ⟨name, wildcard⟩ := key
  obtain ⟨otherName, otherWildcard⟩ := other
  cases wildcard <;> cases otherWildcard <;>
    simp only [Index.find, Index.insert, if_true, Bool.false_eq_true, if_false, Prod.mk.injEq,
      and_true, and_false, reduceCtorEq] at hfree ⊢
  all_goals
    rw [List.lookup_append]
    by_cases hname : otherName = name
    · subst hname
      simp [hfree]
    · have hother : (otherName == name) = false := by simpa using hname
      simp [List.lookup_cons, hother, hname]

section Fits

variable {sameIP : Bytes → Bytes → Bool}

/-- A certificate covers what a host is normalized to. -/
def Covers (sameIP : Bytes → Bytes → Bool) (certificate : TLSCertificate) (rawHost : Bytes)
    (key : Key) : Prop :=
  normalizeBindingHost rawHost = some key ∧
    certificateCoversHost sameIP certificate key.1 key.2 = true

theorem bindHost_eq_ok {certificateRef rawHost : Bytes} {next : Index} :
    bindHost sameIP certificateRef certificate rawHost index = .ok next ↔
      ∃ key, Covers sameIP certificate rawHost key ∧ index.find key = none ∧
        next = index.insert key certificate := by
  constructor
  · intro h
    unfold bindHost at h
    split at h
    · contradiction
    rename_i key hkey
    split_ifs at h with hfind hcovers
    refine ⟨key, ⟨hkey, by simpa using hcovers⟩, by simpa using hfind, ?_⟩
    exact (Except.ok.inj h).symm
  · rintro ⟨key, ⟨hkey, hcovers⟩, hfree, rfl⟩
    simp only [bindHost, hkey, hfree, hcovers, Option.isSome_none, Bool.not_true,
      Bool.false_eq_true, if_false]

/-- The hosts of one binding, without regard to their order. -/
structure HostsFit (sameIP : Bytes → Bytes → Bool) (certificate : TLSCertificate)
    (hosts : List Bytes) (index : Index) : Prop where
  covered : ∀ rawHost ∈ hosts, ∃ key, Covers sameIP certificate rawHost key
  distinct : (hosts.map normalizeBindingHost).Nodup
  free : ∀ rawHost ∈ hosts, ∀ key, normalizeBindingHost rawHost = some key →
    index.find key = none

/-- What the index holds after the hosts of a binding were added. -/
def Extends (certificate : TLSCertificate) (hosts : List Bytes) (index next : Index) : Prop :=
  next.compiled = index.compiled ∧ ∀ key found, next.find key = some found ↔
    index.find key = some found ∨
      found = certificate ∧ ∃ rawHost ∈ hosts, normalizeBindingHost rawHost = some key

theorem compiled_insert (index : Index) (key : Key) (certificate : TLSCertificate) :
    (index.insert key certificate).compiled = index.compiled := by
  unfold Index.insert
  split_ifs <;> rfl

theorem bindHosts_ok_iff {certificateRef : Bytes} {hosts : List Bytes} :
    (∃ next, bindHosts sameIP certificateRef certificate hosts index = .ok next) ↔
      HostsFit sameIP certificate hosts index := by
  induction hosts generalizing index with
  | nil => exact ⟨fun _ => ⟨by simp, by simp, by simp⟩, fun _ => ⟨index, rfl⟩⟩
  | cons rawHost rest ih =>
    constructor
    · rintro ⟨next, hnext⟩
      rw [bindHosts, bind_eq_ok] at hnext
      obtain ⟨middle, hmiddle, hrest⟩ := hnext
      obtain ⟨key, hcovers, hfree, rfl⟩ := bindHost_eq_ok.mp hmiddle
      have hfits := ih.mp ⟨next, hrest⟩
      -- A later host that repeated this key would find it taken.
      have hother : ∀ other ∈ rest, ∀ found, normalizeBindingHost other = some found →
          found ≠ key ∧ index.find found = none := by
        intro other hmem found hfound
        have hnone := hfits.free other hmem found hfound
        rw [find_insert hfree] at hnone
        split_ifs at hnone with hsame
        exact ⟨hsame, hnone⟩
      constructor
      · exact List.forall_mem_cons.mpr ⟨⟨key, hcovers⟩, hfits.covered⟩
      · refine List.nodup_cons.mpr ⟨?_, hfits.distinct⟩
        intro hmem
        obtain ⟨other, hmem, hsame⟩ := List.mem_map.mp hmem
        exact (hother other hmem key (hsame.trans hcovers.1)).1 rfl
      · refine List.forall_mem_cons.mpr ⟨?_, ?_⟩
        · intro found hfound
          obtain rfl := Option.some.inj (hcovers.1.symm.trans hfound)
          exact hfree
        · exact fun other hmem found hfound => (hother other hmem found hfound).2
    · intro hfits
      obtain ⟨⟨key, hcovers⟩, hcovered⟩ := List.forall_mem_cons.mp hfits.covered
      obtain ⟨hfree, hothers⟩ := List.forall_mem_cons.mp hfits.free
      have hdistinct := List.nodup_cons.mp hfits.distinct
      have hnone := hfree key hcovers.1
      have hrest : HostsFit sameIP certificate rest (index.insert key certificate) := by
        constructor
        · exact hcovered
        · exact hdistinct.2
        · intro other hmem found hfound
          rw [find_insert hnone, if_neg]
          · exact hothers other hmem found hfound
          · rintro rfl
            refine hdistinct.1 (List.mem_map.mpr ⟨other, hmem, ?_⟩)
            rw [hfound, hcovers.1]
      obtain ⟨next, hnext⟩ := ih.mpr hrest
      exact ⟨next, by rw [bindHosts, bindHost_eq_ok.mpr ⟨key, hcovers, hnone, rfl⟩]; exact hnext⟩

theorem bindHosts_extends {certificateRef : Bytes} {hosts : List Bytes} {next : Index}
    (h : bindHosts sameIP certificateRef certificate hosts index = .ok next) :
    Extends certificate hosts index next := by
  induction hosts generalizing index with
  | nil =>
    cases h
    exact ⟨rfl, by simp⟩
  | cons rawHost rest ih =>
    rw [bindHosts, bind_eq_ok] at h
    obtain ⟨middle, hmiddle, hrest⟩ := h
    obtain ⟨key, hcovers, hfree, rfl⟩ := bindHost_eq_ok.mp hmiddle
    obtain ⟨hcompiled, hfind⟩ := ih hrest
    constructor
    · exact hcompiled.trans (compiled_insert _ _ _)
    · intro other found
      rw [hfind, find_insert hfree]
      by_cases hsame : other = key
      · subst hsame
        rw [if_pos rfl, hfree]
        simp only [Option.some.injEq, reduceCtorEq, false_or, List.mem_cons, exists_eq_or_imp,
          hcovers.1, true_or, and_true]
        constructor
        · rintro (rfl | ⟨rfl, _⟩) <;> rfl
        · exact fun h => Or.inl h.symm
      · have hnot : normalizeBindingHost rawHost ≠ some other := by
          rw [hcovers.1]
          exact fun h => hsame (Option.some.inj h).symm
        rw [if_neg hsame]
        simp only [List.mem_cons, exists_eq_or_imp, hnot, false_or]

/-! ## Bindings -/

/-- The certificate that a reference stands for at a time. -/
def resolve (materialByID : List (Bytes × Certificate)) (now : Int) (reference : Bytes) :
    Option TLSCertificate :=
  match materialByID.lookup reference with
  | none => none
  | some material =>
    if (checkCertificate now material).isOk then some material.certificate else none

/-- Materials are indexed by their own IDs. -/
def Identified (materialByID : List (Bytes × Certificate)) : Prop :=
  ∀ id material, materialByID.lookup id = some material → material.id = id

/-- A certificate that was compiled before is the one that is compiled now. -/
def Index.Agrees (index : Index) (materialByID : List (Bytes × Certificate)) (now : Int) : Prop :=
  ∀ id certificate, index.compiled.lookup id = some certificate →
    resolve materialByID now id = some certificate

section Bindings

variable {materialByID : List (Bytes × Certificate)} {now : Int} {index next : Index}

theorem compileCertificate_ok_iff (hagrees : index.Agrees materialByID now) {id : Bytes}
    {material : Certificate} (hmaterial : materialByID.lookup id = some material)
    (hid : material.id = id) :
    (∃ result, compileCertificate now material index = .ok result) ↔
      ∃ certificate, resolve materialByID now id = some certificate := by
  unfold compileCertificate
  rw [hid]
  cases hcompiled : index.compiled.lookup id with
  | some certificate => exact ⟨fun _ => ⟨certificate, hagrees id certificate hcompiled⟩,
      fun _ => ⟨_, rfl⟩⟩
  | none =>
    cases hcheck : checkCertificate now material with
    | error cause => simp [resolve, hmaterial, hcheck, Except.isOk, Except.toBool]
    | ok leaf => simp [resolve, hmaterial, hcheck, Except.isOk, Except.toBool]

theorem compileCertificate_spec (hagrees : index.Agrees materialByID now) {id : Bytes}
    {material : Certificate} (hmaterial : materialByID.lookup id = some material)
    (hid : material.id = id) (h : compileCertificate now material index = .ok (certificate, next)) :
    resolve materialByID now id = some certificate ∧ next.Agrees materialByID now ∧
      next.find = index.find := by
  unfold compileCertificate at h
  rw [hid] at h
  split at h
  · rename_i found hfound
    cases h
    exact ⟨hagrees id _ hfound, hagrees, rfl⟩
  split at h
  · contradiction
  rename_i leaf hleaf
  cases h
  have hresolve : resolve materialByID now id = some material.certificate := by
    simp [resolve, hmaterial, hleaf, Except.isOk, Except.toBool]
  refine ⟨hresolve, ?_, rfl⟩
  intro other found hother
  rw [List.lookup_cons] at hother
  split at hother
  · rename_i hsame
    cases hother
    rwa [beq_iff_eq.mp hsame]
  · exact hagrees other found hother

/-- What is asked of one binding, apart from conflicts. -/
structure BindingFits (sameIP : Bytes → Bytes → Bool) (materialByID : List (Bytes × Certificate))
    (now : Int) (binding : SNIBinding) : Prop where
  reference : binding.certificateRef ≠ []
  hosts : binding.hosts ≠ []
  covered : ∃ certificate, resolve materialByID now binding.certificateRef = some certificate ∧
    ∀ rawHost ∈ binding.hosts, ∃ key, Covers sameIP certificate rawHost key

/-- The bindings of a policy, without regard to their order. -/
structure BindingsFit (sameIP : Bytes → Bytes → Bool) (materialByID : List (Bytes × Certificate))
    (now : Int) (bindings : List SNIBinding) (index : Index) : Prop where
  each : ∀ binding ∈ bindings, BindingFits sameIP materialByID now binding
  distinct : (bindings.flatMap fun binding => binding.hosts.map normalizeBindingHost).Nodup
  free : ∀ binding ∈ bindings, ∀ rawHost ∈ binding.hosts, ∀ key,
    normalizeBindingHost rawHost = some key → index.find key = none

theorem bindOne_eq_ok (hids : Identified materialByID) (hagrees : index.Agrees materialByID now)
    {binding : SNIBinding}
    (h : bindOne sameIP materialByID now binding index = .ok next) :
    ∃ certificate, resolve materialByID now binding.certificateRef = some certificate ∧
      binding.certificateRef ≠ [] ∧ binding.hosts ≠ [] ∧
      HostsFit sameIP certificate binding.hosts index ∧ next.Agrees materialByID now ∧
      ∀ key found, next.find key = some found ↔ index.find key = some found ∨
        found = certificate ∧ ∃ rawHost ∈ binding.hosts, normalizeBindingHost rawHost = some key := by
  simp only [bindOne, bind_eq_ok, require_eq_ok, demand_eq_ok, decide_eq_true_eq] at h
  obtain ⟨_, ⟨hreference, hhosts⟩, material, hmaterial, ⟨certificate, middle⟩, hmiddle, hnext⟩ := h
  obtain ⟨hresolve, hmiddles, hfind⟩ :=
    compileCertificate_spec hagrees hmaterial (hids _ _ hmaterial) hmiddle
  have hfits := bindHosts_ok_iff.mp ⟨next, hnext⟩
  obtain ⟨hcompiled, hextends⟩ := bindHosts_extends hnext
  refine ⟨certificate, hresolve, hreference, hhosts, ⟨hfits.covered, hfits.distinct, ?_⟩, ?_, ?_⟩
  · intro rawHost hmem key hkey
    rw [← hfind]
    exact hfits.free rawHost hmem key hkey
  · intro id found hfound
    exact hmiddles id found (hcompiled ▸ hfound)
  · intro key found
    rw [hextends, hfind]

theorem bindOne_of_fits (hids : Identified materialByID) (hagrees : index.Agrees materialByID now)
    {binding : SNIBinding} (hreference : binding.certificateRef ≠ [])
    (hhosts : binding.hosts ≠ [])
    (hresolve : resolve materialByID now binding.certificateRef = some certificate)
    (hfits : HostsFit sameIP certificate binding.hosts index) :
    ∃ next, bindOne sameIP materialByID now binding index = .ok next := by
  cases hmaterial : materialByID.lookup binding.certificateRef with
  | none => simp [resolve, hmaterial] at hresolve
  | some material =>
    obtain ⟨⟨found, middle⟩, hmiddle⟩ := (compileCertificate_ok_iff hagrees hmaterial
      (hids _ _ hmaterial)).mpr ⟨certificate, hresolve⟩
    obtain ⟨hfound, _, hfind⟩ :=
      compileCertificate_spec hagrees hmaterial (hids _ _ hmaterial) hmiddle
    obtain rfl := Option.some.inj (hresolve.symm.trans hfound)
    obtain ⟨next, hnext⟩ := bindHosts_ok_iff.mpr
      (⟨hfits.covered, hfits.distinct, hfind ▸ hfits.free⟩ :
        HostsFit sameIP certificate binding.hosts middle)
    refine ⟨next, ?_⟩
    simp only [bindOne, bind_eq_ok, require_eq_ok, demand_eq_ok, decide_eq_true_eq]
    exact ⟨(), ⟨hreference, hhosts⟩, material, hmaterial, (certificate, middle), hmiddle, hnext⟩

/-- The certificate that the bindings bind to a key. -/
def Binds (materialByID : List (Bytes × Certificate)) (now : Int) (bindings : List SNIBinding)
    (key : Key) (certificate : TLSCertificate) : Prop :=
  ∃ binding ∈ bindings, resolve materialByID now binding.certificateRef = some certificate ∧
    ∃ rawHost ∈ binding.hosts, normalizeBindingHost rawHost = some key

theorem bindAll_eq_ok (hids : Identified materialByID) (hagrees : index.Agrees materialByID now)
    {bindings : List SNIBinding}
    (h : bindAll sameIP materialByID now bindings index = .ok next) :
    BindingsFit sameIP materialByID now bindings index ∧
      ∀ key found, next.find key = some found ↔
        index.find key = some found ∨ Binds materialByID now bindings key found := by
  induction bindings generalizing index with
  | nil =>
    cases h
    exact ⟨⟨by simp, by simp, by simp⟩, by simp [Binds]⟩
  | cons binding rest ih =>
    rw [bindAll, bind_eq_ok] at h
    obtain ⟨middle, hmiddle, hrest⟩ := h
    obtain ⟨certificate, hresolve, hreference, hhosts, hfits, hmiddles, hfind⟩ :=
      bindOne_eq_ok hids hagrees hmiddle
    obtain ⟨hbindings, hnext⟩ := ih hmiddles hrest
    -- What a later binding finds free is neither here before nor added now.
    have hlater : ∀ other ∈ rest, ∀ rawHost ∈ other.hosts, ∀ key,
        normalizeBindingHost rawHost = some key → index.find key = none ∧
          ∀ host ∈ binding.hosts, normalizeBindingHost host ≠ some key := by
      intro other hother rawHost hraw key hkey
      have hnone := hbindings.free other hother rawHost hraw key hkey
      constructor
      · cases hbefore : index.find key with
        | none => rfl
        | some found =>
          have hfound := (hfind key found).mpr (Or.inl hbefore)
          rw [hnone] at hfound
          contradiction
      · intro host hhost hsame
        have hfound := (hfind key certificate).mpr (Or.inr ⟨rfl, host, hhost, hsame⟩)
        rw [hnone] at hfound
        contradiction
    constructor
    · constructor
      · refine List.forall_mem_cons.mpr ⟨?_, hbindings.each⟩
        exact ⟨hreference, hhosts, certificate, hresolve, hfits.covered⟩
      · rw [List.flatMap_cons, List.nodup_append]
        refine ⟨hfits.distinct, hbindings.distinct, ?_⟩
        rintro first hfirst second hsecond rfl
        obtain ⟨host, hhost, rfl⟩ := List.mem_map.mp hfirst
        obtain ⟨other, hother, hmem⟩ := List.mem_flatMap.mp hsecond
        obtain ⟨rawHost, hraw, hsame⟩ := List.mem_map.mp hmem
        obtain ⟨key, hcovers⟩ := hfits.covered host hhost
        exact (hlater other hother rawHost hraw key (hsame.trans hcovers.1)).2 host hhost
          hcovers.1
      · refine List.forall_mem_cons.mpr ⟨hfits.free, ?_⟩
        exact fun other hother rawHost hraw key hkey =>
          (hlater other hother rawHost hraw key hkey).1
    · intro key found
      rw [hnext, hfind, Binds, Binds, or_assoc]
      refine or_congr_right ?_
      rw [List.exists_mem_cons_iff]
      refine or_congr_left ?_
      rw [hresolve, Option.some.injEq, eq_comm]

theorem bindAll_of_fits (hids : Identified materialByID)
    (hagrees : index.Agrees materialByID now) {bindings : List SNIBinding}
    (h : BindingsFit sameIP materialByID now bindings index) :
    ∃ next, bindAll sameIP materialByID now bindings index = .ok next := by
  induction bindings generalizing index with
  | nil => exact ⟨index, rfl⟩
  | cons binding rest ih =>
    obtain ⟨hfirst, heach⟩ := List.forall_mem_cons.mp h.each
    obtain ⟨hfree, hothers⟩ := List.forall_mem_cons.mp h.free
    have hdistinct := h.distinct
    rw [List.flatMap_cons, List.nodup_append] at hdistinct
    obtain ⟨hhere, hthere, hdisjoint⟩ := hdistinct
    obtain ⟨certificate, hresolve, hcovered⟩ := hfirst.covered
    obtain ⟨middle, hmiddle⟩ := bindOne_of_fits hids hagrees hfirst.reference hfirst.hosts
      hresolve ⟨hcovered, hhere, hfree⟩
    obtain ⟨found, _, _, _, _, hmiddles, hfind⟩ := bindOne_eq_ok hids hagrees hmiddle
    have hrest : BindingsFit sameIP materialByID now rest middle := by
      constructor
      · exact heach
      · exact hthere
      · intro other hother rawHost hraw key hkey
        cases hbefore : middle.find key with
        | none => rfl
        | some stored =>
          rcases (hfind key stored).mp hbefore with hold | ⟨_, host, hhost, hsame⟩
          · rw [hothers other hother rawHost hraw key hkey] at hold
            contradiction
          · refine absurd rfl (hdisjoint (some key) ?_ (some key) ?_)
            · exact List.mem_map.mpr ⟨host, hhost, hsame⟩
            · exact List.mem_flatMap.mpr ⟨other, hother, List.mem_map.mpr ⟨rawHost, hraw, hkey⟩⟩
    obtain ⟨next, hnext⟩ := ih hmiddles hrest
    exact ⟨next, by rw [bindAll, hmiddle]; exact hnext⟩

end Bindings

/-! ## Materials -/

theorem lookup_indexMaterials {materials : List (Option Certificate)}
    {seen materialByID : List (Bytes × Certificate)}
    (h : indexMaterials materials seen = .ok materialByID) (id : Bytes) (material : Certificate) :
    materialByID.lookup id = some material ↔
      seen.lookup id = some material ∨ some material ∈ materials ∧ material.id = id := by
  induction materials generalizing seen with
  | nil =>
    cases h
    simp
  | cons first rest ih =>
    cases first with
    | none => contradiction
    | some added =>
      rw [indexMaterials] at h
      split_ifs at h with hempty hseen
      rw [ih h, List.lookup_append]
      simp only [List.mem_cons, Option.some.injEq]
      by_cases hid : id = added.id
      · subst hid
        have hnone : seen.lookup added.id = none := Option.not_isSome_iff_eq_none.mp hseen
        simp only [hnone, Option.none_or, List.lookup_cons, beq_self_eq_true, Option.some.injEq,
          reduceCtorEq, false_or]
        constructor
        · rintro (rfl | ⟨hmem, hsame⟩)
          · exact ⟨Or.inl rfl, rfl⟩
          · exact ⟨Or.inr hmem, hsame⟩
        · rintro ⟨rfl | hmem, hsame⟩
          · exact Or.inl rfl
          · exact Or.inr ⟨hmem, hsame⟩
      · have hother : (id == added.id) = false := by simpa using hid
        simp only [List.lookup_cons, hother, List.lookup_nil, Option.or_none]
        refine or_congr_right (and_congr_left fun hsame => ?_)
        constructor
        · exact Or.inr
        · rintro (rfl | hmem)
          · exact absurd hsame.symm hid
          · exact hmem

end Fits

end GGateway.DownstreamTLS
