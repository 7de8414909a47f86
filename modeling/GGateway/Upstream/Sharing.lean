import GGateway.Upstream.Trackers
import GGateway.Upstream.Transports

/-!
# Who shares a runtime

Two plans, of one revision or of two, share a transport or a health tracker only if they
were prepared under the same key, whatever is released and created between the two
preparations.

A health key is a digest of the transport key among other things.  What decides about
trust and identity stands at fixed places at the end of the digested text
(`fingerprints_of_healthInput`), so that two trackers with one key have the same.
-/

namespace GGateway.Upstream

open Text Model Library Library.RefTable Library.Transition Library.Checks
open TLSMaterial (Codec bigEndian_length newTrustBundle newCertificate InPEM)

/-! ## Health keys -/

/-- What the digest of a health key is fed with. -/
def healthInput (policy : HealthPolicy) (transport : TransportKey) : Bytes :=
  writeString (ascii "gateway/health-key/v2") ++ writeActive policy.active ++
    writePassive policy.passive ++ writeTransportKey transport

theorem makeHealthKey_eq (platform : Platform) (identity : Bytes) (policy : HealthPolicy)
    (transport : TransportKey) :
    makeHealthKey platform identity policy transport =
      ⟨identity, platform.sha256 (healthInput policy transport)⟩ := rfl

/-- The fingerprints can be read back from the end of the text. -/
theorem fingerprints_of_healthInput {policy other : HealthPolicy} {left right : TransportKey}
    (htrust : left.trustFingerprint.length = right.trustFingerprint.length)
    (hclient : left.clientFingerprint.length = right.clientFingerprint.length)
    (h : healthInput policy left = healthInput other right) :
    left.trustFingerprint = right.trustFingerprint ∧
      left.clientFingerprint = right.clientFingerprint := by
  have hend : ∀ key : TransportKey,
      (writeUint16 key.minTLSVersion ++ writeBool key.disableCompression).length = 3 := by
    intro key
    rw [List.length_append, writeUint16, bigEndian_length]
    rfl
  simp only [healthInput, writeTransportKey, ← List.append_assoc] at h
  simp only [List.append_assoc _ (writeUint16 _)] at h
  obtain ⟨h, _⟩ := List.append_inj' h ((hend left).trans (hend right).symm)
  obtain ⟨h, hclients⟩ := List.append_inj' h hclient
  exact ⟨(List.append_inj' h htrust).2, hclients⟩

/-! ## Prepared plans -/

theorem normalizeFrom_ids {platform : Platform} {index total : Nat}
    {resources normalized : List Upstream} {seen : List Bytes}
    (h : normalizeFrom platform index resources seen total = .ok normalized) :
    (normalized.map Upstream.id).Nodup ∧ ∀ resource ∈ normalized, resource.id ∉ seen := by
  induction resources generalizing index total seen normalized with
  | nil =>
    obtain rfl : [] = normalized := by simpa [normalizeFrom] using h
    simp
  | cons resource rest ih =>
    simp only [normalizeFrom, bind_eq_ok, require_eq_ok, Bool.not_eq_true',
      List.contains_eq_mem, decide_eq_false_iff_not] at h
    obtain ⟨_, _, _, hunseen, _, _, _, _, _, _, first, hfirst, others, hothers, hresult⟩ := h
    cases hresult
    obtain ⟨hnodup, hnotseen⟩ := ih hothers
    have hid : first.id = resource.id := by
      simp only [normalizeUpstream, bind_eq_ok] at hfirst
      obtain ⟨_, _, _, _, _, _, _, _, _, _, _, _, hfirst⟩ := hfirst
      rw [← Except.ok.inj hfirst]
    constructor
    · rw [List.map_cons, List.nodup_cons, hid]
      refine ⟨?_, hnodup⟩
      intro hmem
      obtain ⟨other, hother, hsame⟩ := List.mem_map.mp hmem
      exact hnotseen other hother (hsame ▸ List.mem_cons_self)
    · intro other hother
      rcases List.mem_cons.mp hother with rfl | hrest
      · rwa [hid]
      · exact fun hseen => hnotseen other hrest (List.mem_cons_of_mem _ hseen)

/-- The new candidate of a successful call holds what the loop has prepared. -/
theorem prepareCall_eq_ok {platform : Platform} {world next : World} {resources : ResourceSet}
    {index : Nat} (h : world.prepareCall platform resources = some (next, .ok index)) :
    ∃ normalized materials p plans, normalize platform resources.upstreams = .ok normalized ∧
      newMaterialIndex resources = .ok materials ∧
      preparePlans platform materials 0 normalized ⟨world.registry, .empty, .zero⟩ =
        (p, .ok plans) ∧
      p.registry = next.registry ∧
      ∀ candidate, next.candidates[index]? = some candidate → candidate.plans = plans := by
  unfold World.prepareCall at h
  split at h
  · exact nomatch (Prod.mk.inj (Option.some.inj h)).2
  rename_i normalized hnormalized
  split at h
  · exact nomatch (Prod.mk.inj (Option.some.inj h)).2
  rename_i materials hmaterials
  split at h
  · exact nomatch (Prod.mk.inj (Option.some.inj h)).2
  split at h
  · contradiction
  · exact nomatch (Prod.mk.inj (Option.some.inj h)).2
  · rename_i registry plans owned stats hprepared
    obtain ⟨rfl, hindex⟩ := Prod.mk.inj (Option.some.inj h)
    cases hindex
    obtain ⟨p, hp, hregistry⟩ := (prepareLocked_ages hprepared).2 plans owned stats rfl
    refine ⟨normalized, materials, p, plans, hnormalized, hmaterials, hp, hregistry, ?_⟩
    intro candidate hcandidate
    have hlast : candidate = ⟨plans, owned, stats, .prepared⟩ := by
      simpa [World.notify] using hcandidate.symm
    rw [hlast]

section Plans

variable {platform : Platform} {codec : Codec} {resources : ResourceSet} {resource : Upstream}
  {profile : TransportProfile} {world next : World} {index : Nat} {candidate : Candidate}
  {plan : Plan}

/-- The plan of an upstream is registered under the keys of its profile. -/
theorem registered_of_prepareCall (hcompiled : Compiled platform codec resources resource profile)
    (hcall : world.prepareCall platform resources = some (next, .ok index))
    (hcandidate : next.candidates[index]? = some candidate)
    (hplan : (resource.id, plan) ∈ candidate.plans) :
    runtime? next.registry.transports (makeTransportKey profile) = some plan.transport ∧
      ∀ endpoint ∈ plan.endpoints, ∀ tracker, endpoint.health = some tracker →
        runtime? next.registry.health (makeHealthKey platform endpoint.identity resource.health
          (makeTransportKey profile)) = some tracker := by
  obtain ⟨normalized, materials, p, plans, hnormalized, hmaterials, hp, hregistry, hplans⟩ :=
    prepareCall_eq_ok hcall
  rw [hplans candidate hcandidate] at hplan
  obtain ⟨source, hsource, found, before, after, hfound, hprepared, hid, hrest⟩ :=
    preparePlans_each hp (resource.id, plan) hplan
  obtain ⟨accepted, haccepted, hresource⟩ := hcompiled.accepted
  obtain ⟨indexed, hindexed, hprofile⟩ := hcompiled.resolved
  obtain rfl := Except.ok.inj (hnormalized.symm.trans haccepted)
  obtain rfl := Except.ok.inj (hmaterials.symm.trans hindexed)
  simp only [normalize, bind_eq_ok] at hnormalized
  obtain ⟨_, _, hfrom⟩ := hnormalized
  obtain rfl : resource = source :=
    List.inj_on_of_nodup_map (normalizeFrom_ids hfrom).1 hresource hsource hid
  obtain rfl := Except.ok.inj (hprofile.symm.trans hfound)
  have hpinned := preparePlanLocked_pinned hprepared
  have hserves := preparePlanLocked_serves hprepared
  have hkey : plan.transportKey = makeTransportKey profile := preparePlanLocked_key hprepared
  rw [← hregistry, ← hkey]
  constructor
  · have htransport : Pinned (after.countPlan plan).registry (after.countPlan plan).owned
        .transport plan.transportKey plan.transport := hpinned.transport
    exact (hrest.pinned htransport).2
  · intro endpoint hendpoint tracker htracker
    have htracked : Pinned (after.countPlan plan).registry (after.countPlan plan).owned .health
        (makeHealthKey platform endpoint.identity resource.health plan.transportKey) tracker :=
      (hserves.health endpoint hendpoint).2 tracker htracker
    exact (hrest.pinned htracked).2

end Plans

/-! ## Sharing -/

/-- Both plans were made in one run: by one call, or the other by a later one. -/
def MadeInOneRun (platform : Platform) (maxRetiredSnapshots : Nat) (resources others : ResourceSet)
    (resource other : Upstream) (plan otherPlan : Plan) : Prop :=
  ∃ world next index candidate, World.Reachable platform maxRetiredSnapshots world ∧
    world.prepareCall platform resources = some (next, .ok index) ∧
    next.candidates[index]? = some candidate ∧ (resource.id, plan) ∈ candidate.plans ∧
    (others = resources ∧ (other.id, otherPlan) ∈ candidate.plans ∨
      ∃ later final laterIndex laterCandidate, Runs (World.step platform) next later ∧
        later.prepareCall platform others = some (final, .ok laterIndex) ∧
        final.candidates[laterIndex]? = some laterCandidate ∧
        (other.id, otherPlan) ∈ laterCandidate.plans)

/-- Nothing is shared: neither the transport nor a health tracker. -/
structure Plan.Apart (plan other : Plan) : Prop where
  transport : plan.transport.id ≠ other.transport.id
  trackers : ∀ endpoint ∈ plan.endpoints, ∀ otherEndpoint ∈ other.endpoints,
    ∀ tracker otherTracker, endpoint.health = some tracker →
      otherEndpoint.health = some otherTracker → tracker.generation ≠ otherTracker.generation

/-- What is digested for an upstream: the material of its revision and its health key. -/
def digestInputs (resources : ResourceSet) (resource : Upstream) (profile : TransportProfile) :
    Set Bytes :=
  fingerprintInputs resources ∪ {healthInput resource.health (makeTransportKey profile)}

section Pairs

variable {platform : Platform} {codec : Codec} {resources others : ResourceSet}
  {resource other : Upstream} {profile otherProfile : TransportProfile}

/-- Whoever shares something has the same transport key or the same health key. -/
theorem apart_of_keys {maxRetiredSnapshots : Nat} {plan otherPlan : Plan}
    (h : Compiled platform codec resources resource profile)
    (h' : Compiled platform codec others other otherProfile)
    (hrun : MadeInOneRun platform maxRetiredSnapshots resources others resource other plan
      otherPlan)
    (htransport : makeTransportKey profile ≠ makeTransportKey otherProfile)
    (hhealth : ∀ identity otherIdentity,
      makeHealthKey platform identity resource.health (makeTransportKey profile) ≠
        makeHealthKey platform otherIdentity other.health (makeTransportKey otherProfile)) :
    plan.Apart otherPlan := by
  obtain ⟨world, next, index, candidate, hreachable, hcall, hcandidate, hplan, hother⟩ := hrun
  obtain ⟨hfound, htracked⟩ := registered_of_prepareCall h hcall hcandidate hplan
  have hdistinct := (prepareCall_grows hcall).distinct hreachable.distinct
  -- The registry in which the other plan is registered has grown from the first one.
  obtain ⟨final, hgrows, hfound', htracked'⟩ : ∃ final : World,
      next.registry.Grows final.registry ∧
      runtime? final.registry.transports (makeTransportKey otherProfile) =
        some otherPlan.transport ∧
      ∀ endpoint ∈ otherPlan.endpoints, ∀ tracker, endpoint.health = some tracker →
        runtime? final.registry.health (makeHealthKey platform endpoint.identity other.health
          (makeTransportKey otherProfile)) = some tracker := by
    rcases hother with ⟨rfl, hother⟩ | ⟨later, final, _, _, hruns, hcall', hcandidate', hother⟩
    · exact ⟨next, .refl _, registered_of_prepareCall h' hcall hcandidate hother⟩
    · exact ⟨final, (runs_grows hruns).trans (prepareCall_grows hcall'),
        registered_of_prepareCall h' hcall' hcandidate' hother⟩
  constructor
  · intro hsame
    exact htransport (hgrows.transports.key_eq hdistinct.transports hfound hfound' hsame)
  · intro endpoint hendpoint otherEndpoint hotherEndpoint tracker otherTracker hhas hhas' hsame
    exact hhealth _ _ (hgrows.health.key_eq hdistinct.health
      (htracked endpoint hendpoint tracker hhas)
      (htracked' otherEndpoint hotherEndpoint otherTracker hhas') hsame)

/-- A health key tells trust and client identity apart. -/
theorem material_of_makeHealthKey (hplatform : platform.Documented) {inputs : Set Bytes}
    (hdigest : Collisionless platform.sha256 inputs)
    (h : Compiled platform codec resources resource profile)
    (h' : Compiled platform codec others other otherProfile)
    (hinputs : digestInputs resources resource profile ⊆ inputs)
    (hinputs' : digestInputs others other otherProfile ⊆ inputs) {identity otherIdentity : Bytes}
    (hkeys : makeHealthKey platform identity resource.health (makeTransportKey profile) =
      makeHealthKey platform otherIdentity other.health (makeTransportKey otherProfile)) :
    (transportIdentity platform resources resource).trusted =
        (transportIdentity platform others other).trusted ∧
      (transportIdentity platform resources resource).clientChain =
        (transportIdentity platform others other).clientChain := by
  have hstates := h.states hplatform
  have hstates' := h'.states hplatform
  have hmaterial := (Set.union_subset_iff.mp hinputs).1
  have hmaterial' := (Set.union_subset_iff.mp hinputs').1
  rw [makeHealthKey_eq, makeHealthKey_eq, HealthKey.mk.injEq] at hkeys
  have htext : healthInput resource.health (makeTransportKey profile) =
      healthInput other.health (makeTransportKey otherProfile) :=
    hdigest.injective _ (hinputs (Or.inr rfl)) _ (hinputs' (Or.inr rfl)) hkeys.2
  obtain ⟨htrust, hclient⟩ := fingerprints_eq_iff hplatform hdigest h h' hmaterial hmaterial'
  rw [makeTransportKey_eq hstates.plain, makeTransportKey_eq hstates'.plain] at htext
  obtain ⟨hbundles, hcertificates⟩ := fingerprints_of_healthInput
    ((fingerprintOf_length hdigest (trustBundle_fingerprinted h hstates hmaterial)).trans
      (fingerprintOf_length hdigest (trustBundle_fingerprinted h' hstates' hmaterial')).symm)
    ((fingerprintOf_length hdigest (clientCertificate_fingerprinted h hstates hmaterial)).trans
      (fingerprintOf_length hdigest
        (clientCertificate_fingerprinted h' hstates' hmaterial')).symm) htext
  exact ⟨htrust.mp hbundles, hclient.mp hcertificates⟩

end Pairs

/-- Connection pools are shared exactly when it is safe: the key of an accepted upstream is
its transport identity, equal keys build equal transports, and plans of upstreams that
differ in trust or client identity share neither transport nor tracker, in one revision
or in two. -/
theorem pools_shared_iff (platform : Platform) (codec : Codec) (hplatform : platform.Documented)
    (hpaired : Paired codec) (resources others : ResourceSet) (resource other : Upstream)
    (profile otherProfile : TransportProfile)
    (h : Compiled platform codec resources resource profile)
    (h' : Compiled platform codec others other otherProfile)
    (hdigest : Collisionless platform.sha256
      (digestInputs resources resource profile ∪ digestInputs others other otherProfile)) :
    (makeTransportKey profile = makeTransportKey otherProfile ↔
      transportIdentity platform resources resource = transportIdentity platform others other) ∧
    (makeTransportKey profile = makeTransportKey otherProfile →
      newTransportRuntime profile = newTransportRuntime otherProfile) ∧
    ((transportIdentity platform resources resource).trusted ≠
          (transportIdentity platform others other).trusted ∨
        (transportIdentity platform resources resource).clientChain ≠
          (transportIdentity platform others other).clientChain →
      ∀ maxRetiredSnapshots plan otherPlan, MadeInOneRun platform maxRetiredSnapshots resources
        others resource other plan otherPlan → plan.Apart otherPlan) ∧
    ∀ id caPEM bundle, newTrustBundle platform.sha256 codec id caPEM = .ok bundle →
      ∀ document, document ∈ bundle.documents ↔ InPEM codec document caPEM := by
  obtain ⟨hinputs, hinputs'⟩ := Set.union_subset_iff.mp
    (Set.Subset.refl (digestInputs resources resource profile ∪
      digestInputs others other otherProfile))
  have hmaterial := (Set.union_subset_iff.mp hinputs).1
  have hmaterial' := (Set.union_subset_iff.mp hinputs').1
  have hiff := makeTransportKey_eq_iff hplatform hdigest h h' hmaterial hmaterial'
  refine ⟨hiff, newTransportRuntime_eq hplatform hdigest hpaired h h' hmaterial hmaterial', ?_, ?_⟩
  · intro hdiffer maxRetiredSnapshots plan otherPlan hrun
    have hapart : ¬((transportIdentity platform resources resource).trusted =
          (transportIdentity platform others other).trusted ∧
        (transportIdentity platform resources resource).clientChain =
          (transportIdentity platform others other).clientChain) := by
      rintro ⟨htrusted, hchain⟩
      rcases hdiffer with htrust | hclient
      · exact htrust htrusted
      · exact hclient hchain
    apply apart_of_keys h h' hrun
    · intro hkeys
      have hsame := hiff.mp hkeys
      exact hapart ⟨by rw [hsame], by rw [hsame]⟩
    · intro identity otherIdentity hkeys
      exact hapart (material_of_makeHealthKey hplatform hdigest h h' hinputs hinputs' hkeys)
  · intro id caPEM bundle hbundle
    exact (TLSMaterial.newTrustBundle_spec hbundle).2.2.2.2

/-! ## One CA set in two spellings -/

def sampleDigest (input : Bytes) : Bytes :=
  bigEndian 32 (input.foldl (fun sum byte => (sum * 257 + byte.toNat + 1) % (2 ^ 256 - 189)) 1)

def digestingPlatform : Platform :=
  { parsingPlatform with sha256 := sampleDigest }

theorem digestingPlatform_documented : digestingPlatform.Documented where
  uppers := parsingPlatform_documented.uppers
  unmapped := parsingPlatform_documented.unmapped
  dotted := parsingPlatform_documented.dotted
  parsed := parsingPlatform_documented.parsed

/-- A PEM block whose body stands for itself, where base64 would be. -/
def pemBlock (type body : Bytes) : Bytes :=
  ascii "-----BEGIN " ++ type ++ ascii "-----\n" ++ body ++ ascii "\n-----END " ++ type ++
    ascii "-----\n"

/-- The first three lines, if they are a block. -/
def decodeBlock (text : Bytes) : Option (TLSMaterial.Block × Bytes) := do
  let (begins, rest) ← cut text 10
  let (body, rest) ← cut rest 10
  let (_, rest) ← cut rest 10
  let type := slice begins 11 (begins.length - 5)
  if hasPrefix text (pemBlock type body) then some (⟨type, body⟩, rest) else none

theorem decodeBlock_shrinks {text rest : Bytes} {block : TLSMaterial.Block}
    (h : decodeBlock text = some (block, rest)) : rest.length < text.length := by
  simp only [decodeBlock, Option.bind_eq_bind, Option.bind_eq_some_iff, Prod.exists,
    cut_eq_some] at h
  obtain ⟨_, _, ⟨rfl, _⟩, _, _, ⟨rfl, _⟩, _, _, ⟨rfl, _⟩, h⟩ := h
  split_ifs at h
  cases h
  simp only [List.length_append, List.length_cons]
  omega

def parseDocument (bytes : Bytes) : Except Bytes Document :=
  if h : bytes.length < 2 ^ 63 then .ok ⟨bytes, h⟩ else .error (ascii "too long")

/-- A chain has one certificate, and its key names it. -/
def sampleCodec : Codec where
  decode := decodeBlock
  shrinks _ _ _ := decodeBlock_shrinks
  parseCertificate := parseDocument
  keyPair certificatePEM privateKeyPEM :=
    match decodeBlock certificatePEM, decodeBlock privateKeyPEM with
    | some (certificate, _), some (key, _) => do
      let document ← parseDocument certificate.bytes
      require (key.bytes = ascii "key of " ++ document.val) (ascii "key does not match")
      pure ([document], key.bytes)
    | _, _ => .error (ascii "no PEM data")

theorem keyPair_sampleCodec {certificatePEM privateKeyPEM privateKey : Bytes}
    {documents : List Document}
    (h : sampleCodec.keyPair certificatePEM privateKeyPEM = .ok (documents, privateKey)) :
    ∃ document, documents = [document] ∧ privateKey = ascii "key of " ++ document.val := by
  simp only [sampleCodec] at h
  split at h
  · simp only [bind_eq_ok, require_eq_ok] at h
    obtain ⟨document, _, _, hkey, hresult⟩ := h
    cases hresult
    exact ⟨document, rfl, of_decide_eq_true hkey⟩
  · contradiction

theorem sampleCodec_paired : Paired sampleCodec := by
  intro _ _ _ _ documents privateKey otherKey h h'
  obtain ⟨document, rfl, rfl⟩ := keyPair_sampleCodec h
  obtain ⟨other, hsame, rfl⟩ := keyPair_sampleCodec h'
  rw [(List.cons.inj hsame).1]

/-- An HTTPS upstream that trusts the certificates of one text and shows that of the other. -/
def trustingResources (trustID clientID caPEM clientPEM : Bytes) : ResourceSet :=
  { sampleResources with
    upstreams :=
      [{ sampleUpstream with
          endpoints := [⟨ascii "https://app:443", 1⟩]
          transport :=
            { sampleUpstream.transport with tls := some ⟨trustID, clientID, ascii "App."⟩ } }]
    trustBundles := [(newTrustBundle sampleDigest sampleCodec trustID caPEM).toOption]
    certificates := [(newCertificate sampleDigest sampleCodec clientID clientPEM
      (pemBlock (ascii "PRIVATE KEY") (ascii "key of gateway"))).toOption] }

/-- The only upstream of a revision with its profile. -/
def onlyProfile (platform : Platform) (resources : ResourceSet) :
    Option (Upstream × TransportProfile) := do
  let normalized ← (normalize platform resources.upstreams).toOption
  let resource ← normalized.head?
  let materials ← (newMaterialIndex resources).toOption
  let profile ← (compileTransportProfile platform resource materials).toOption
  pure (resource, profile)

theorem toOption_eq_some {ε α : Type} {result : Except ε α} {value : α} :
    result.toOption = some value ↔ result = .ok value := by
  cases result with
  | error cause => simp [Except.toOption]
  | ok found => simp [Except.toOption]

theorem compiled_of_onlyProfile {platform : Platform} {codec : Codec} {resources : ResourceSet}
    {resource : Upstream} {profile : TransportProfile} (hgenuine : Genuine platform codec resources)
    (h : onlyProfile platform resources = some (resource, profile)) :
    Compiled platform codec resources resource profile := by
  simp only [onlyProfile, Option.bind_eq_bind, Option.bind_eq_some_iff, toOption_eq_some] at h
  obtain ⟨normalized, hnormalized, found, hfound, materials, hmaterials, compiled, hcompiled,
    hpair⟩ := h
  cases hpair
  exact ⟨hgenuine, ⟨normalized, hnormalized, List.mem_of_head? hfound⟩,
    materials, hmaterials, hcompiled⟩

theorem trustingResources_genuine (trustID clientID caPEM clientPEM : Bytes) :
    Genuine digestingPlatform sampleCodec
      (trustingResources trustID clientID caPEM clientPEM) := by
  constructor
  · intro bundle hbundle
    exact ⟨_, _, toOption_eq_some.mp (List.mem_singleton.mp hbundle).symm⟩
  · intro certificate hcertificate
    exact ⟨_, _, _, toOption_eq_some.mp (List.mem_singleton.mp hcertificate).symm⟩

/-- What is digested for an upstream, as a list. -/
def digested (resources : ResourceSet) (resource : Upstream) (profile : TransportProfile) :
    List Bytes :=
  healthInput resource.health (makeTransportKey profile) ::
    ((resources.trustBundles.filterMap id).map fun bundle =>
      TLSMaterial.fingerprintInput TLSMaterial.trustBundleDomain bundle.documents) ++
    (resources.certificates.filterMap id).map fun certificate =>
      TLSMaterial.fingerprintInput TLSMaterial.certificateDomain certificate.documents

theorem mem_digested {resources : ResourceSet} {resource : Upstream} {profile : TransportProfile}
    {input : Bytes} (h : input ∈ digestInputs resources resource profile) :
    input ∈ digested resources resource profile := by
  rcases h with (⟨bundle, hbundle, rfl⟩ | ⟨certificate, hcertificate, rfl⟩) | rfl
  · refine List.mem_append_left _ (List.mem_cons_of_mem _ (List.mem_map.mpr ⟨bundle, ?_, rfl⟩))
    simpa using hbundle
  · refine List.mem_append_right _ (List.mem_map.mpr ⟨certificate, ?_, rfl⟩)
    simpa using hcertificate
  · exact List.mem_append_left _ List.mem_cons_self

/-- The digest tells the texts apart. -/
def tellsApart (inputs : List Bytes) : Bool :=
  decide (∀ left ∈ inputs, ∀ right ∈ inputs, sampleDigest left = sampleDigest right →
    left = right) &&
  decide (∀ input ∈ inputs, sampleDigest input ≠ zeroFingerprint)

theorem collisionless_of_tellsApart {listed : List Bytes} (h : tellsApart listed = true)
    {inputs : Set Bytes} (hinputs : ∀ input ∈ inputs, input ∈ listed) :
    Collisionless sampleDigest inputs := by
  rw [tellsApart, Bool.and_eq_true, decide_eq_true_eq, decide_eq_true_eq] at h
  constructor
  · intro input _
    exact bigEndian_length 32 _
  · intro left hleft right hright
    exact h.1 left (hinputs left hleft) right (hinputs right hright)
  · intro input hinput
    exact h.2 input (hinputs input hinput)

def certificateBlock (body : String) : Bytes :=
  pemBlock (ascii "CERTIFICATE") (ascii body)

/-- The CA certificates and the client certificate in one spelling. -/
def plainRevision : ResourceSet :=
  trustingResources (ascii "roots") (ascii "client")
    (certificateBlock "first" ++ certificateBlock "second") (certificateBlock "gateway")

/-- Under other names, with the CA certificates in another order and one repeated, and a
text after the client certificate. -/
def respelledRevision : ResourceSet :=
  trustingResources (ascii "ca") (ascii "mtls")
    (certificateBlock "second" ++ certificateBlock "first" ++ certificateBlock "second")
    (certificateBlock "gateway" ++ ascii "kept by hand\n")

/-- Two revisions spell one CA set and one client certificate differently. -/
theorem pools_shared_iff_spelled :
    ∃ resource other profile otherProfile,
      Compiled digestingPlatform sampleCodec plainRevision resource profile ∧
      Compiled digestingPlatform sampleCodec respelledRevision other otherProfile ∧
      profile.clientCertificate.isSome = true ∧
      makeTransportKey profile = makeTransportKey otherProfile ∧
      newTransportRuntime profile = newTransportRuntime otherProfile := by
  have htest : (onlyProfile digestingPlatform plainRevision).any (fun first =>
      (onlyProfile digestingPlatform respelledRevision).any fun second =>
        decide (first.2.clientCertificate.isSome = true ∧
          makeTransportKey first.2 = makeTransportKey second.2) &&
        tellsApart (digested plainRevision first.1 first.2 ++
          digested respelledRevision second.1 second.2)) = true := by
    decide +kernel
  obtain ⟨⟨resource, profile⟩, hprofile, htest⟩ := (Option.any_eq_true _ _).mp htest
  obtain ⟨⟨other, otherProfile⟩, hotherProfile, htest⟩ := (Option.any_eq_true _ _).mp htest
  rw [Bool.and_eq_true, decide_eq_true_eq] at htest
  obtain ⟨⟨hclient, hkeys⟩, hapart⟩ := htest
  have h := compiled_of_onlyProfile (trustingResources_genuine _ _ _ _) hprofile
  have h' := compiled_of_onlyProfile (trustingResources_genuine _ _ _ _) hotherProfile
  have hdigest : Collisionless digestingPlatform.sha256
      (digestInputs plainRevision resource profile ∪
        digestInputs respelledRevision other otherProfile) := by
    apply collisionless_of_tellsApart hapart
    rintro input (hinput | hinput)
    · exact List.mem_append_left _ (mem_digested hinput)
    · exact List.mem_append_right _ (mem_digested hinput)
  exact ⟨resource, other, profile, otherProfile, h, h', hclient, hkeys,
    (pools_shared_iff digestingPlatform sampleCodec digestingPlatform_documented sampleCodec_paired
      _ _ _ _ _ _ h h' hdigest).2.1 hkeys⟩

end GGateway.Upstream
