import GGateway.Library.SortedSet
import GGateway.Upstream.Conservation
import GGateway.Upstream.Spelling

/-!
# Canonical upstreams

`Normalize` maps a list of upstreams to its canonical form: spellings, repetitions and the
order of endpoints do not matter, and the canonical form is mapped to itself.

* `Scannable` and `EndpointScan.push` say when the loop over the endpoints succeeds and what it
  has gathered then, by the canonical endpoints alone; neither depends on their order.
* The other parts of an upstream are taken one after the other: `…_same` for another spelling
  and `…_idem` for the canonical form.
* `normalize_canonical` puts them together.
-/

namespace GGateway.Upstream

open Text Model Library.Checks Library.SortedSet

/-! ## The loop over endpoints -/

def schemeOf (platform : Platform) (canonical : Bytes) : Bytes :=
  match platform.parseURL canonical with
  | .ok url => url.scheme
  | .error _ => []

/-- The second endpoint is the canonical form of the first. -/
structure Canonical (platform : Platform) (endpoint canonical : Endpoint) : Prop where
  bound : endpoint.weight ≤ maxEndpointWeight
  weight : canonical.weight = endpoint.weight
  url : normalizeEndpoint platform endpoint.url = .ok canonical.url

/-- The canonical endpoints can follow a scan: one scheme, and no repetition. -/
structure Scannable (platform : Platform) (upstreamID : Bytes) (scan : EndpointScan)
    (endpoints : List Endpoint) : Prop where
  scheme : ∀ endpoint ∈ endpoints, 0 < endpoint.weight →
    scan.scheme = [] ∨ scan.scheme = schemeOf platform endpoint.url
  uniform : ∀ endpoint ∈ endpoints, 0 < endpoint.weight → ∀ other ∈ endpoints, 0 < other.weight →
    schemeOf platform other.url = schemeOf platform endpoint.url
  unseen : ∀ endpoint ∈ endpoints, endpointIdentity upstreamID endpoint.url ∉ scan.seen
  nodup : (endpoints.map fun endpoint => endpointIdentity upstreamID endpoint.url).Nodup

/-- A scan with one more canonical endpoint. -/
def EndpointScan.push (platform : Platform) (upstreamID : Bytes) (scan : EndpointScan)
    (endpoint : Endpoint) : EndpointScan where
  endpoints := scan.endpoints ++ [(endpoint, endpointIdentity upstreamID endpoint.url)]
  active := if 0 < endpoint.weight then scan.active + 1 else scan.active
  scheme := if 0 < endpoint.weight then schemeOf platform endpoint.url else scan.scheme
  seen := endpointIdentity upstreamID endpoint.url :: scan.seen

variable {index : Nat} {canonical : List Endpoint} {field upstreamID : Bytes}

section Scans

variable {platform : Platform} (hplatform : platform.Documented) {upstreamID field : Bytes}

include hplatform

/-- The scheme of a canonical URL is not empty. -/
theorem schemeOf_canonical {raw canonical : Bytes}
    (h : normalizeEndpoint platform raw = .ok canonical) :
    schemeOf platform canonical ≠ [] ∧
      ∃ url, platform.parseURL canonical = .ok url ∧ url.scheme = schemeOf platform canonical := by
  obtain ⟨_, url, hurl, hscheme⟩ := normalizeEndpoint_idem hplatform h
  have hsame : schemeOf platform canonical = url.scheme := by rw [schemeOf, hurl]
  refine ⟨?_, url, hurl, hsame.symm⟩
  rw [hsame]
  rcases hscheme with hscheme | hscheme <;> rw [hscheme] <;> decide

theorem scanEndpoint_eq_ok {endpoint : Endpoint} {scan next : EndpointScan} :
    scanEndpoint platform upstreamID field index endpoint scan = .ok next ↔
      ∃ canonical, Canonical platform endpoint canonical ∧
        (0 < canonical.weight →
          scan.scheme = [] ∨ scan.scheme = schemeOf platform canonical.url) ∧
        endpointIdentity upstreamID canonical.url ∉ scan.seen ∧
        next = scan.push platform upstreamID canonical := by
  by_cases hpositive : 0 < endpoint.weight
  · simp only [scanEndpoint, if_pos hpositive, bind_eq_ok, require_eq_ok, mapError_eq_ok,
      decide_eq_true_eq]
    constructor
    · rintro ⟨_, hbound, canonical, hcanonical, url, hurl, _, hscheme, scheme, hfirst, _, hseen, hnext⟩
      obtain ⟨_, found, hfound, hsame⟩ := schemeOf_canonical hplatform hcanonical
      obtain rfl : found = url := Except.ok.inj (hfound.symm.trans hurl)
      rw [hsame] at hscheme hfirst
      have hkept : scheme = schemeOf platform canonical := by
        rw [← Except.ok.inj hfirst]
        split_ifs with hnone
        · rfl
        · exact hscheme.resolve_left hnone
      refine ⟨⟨canonical, endpoint.weight⟩, ⟨hbound, rfl, hcanonical⟩, fun _ => hscheme,
        by simpa using hseen, ?_⟩
      rw [← Except.ok.inj hnext, EndpointScan.push, if_pos hpositive, if_pos hpositive, hkept]
    · rintro ⟨canonical, ⟨hbound, hweight, hcanonical⟩, hscheme, hseen, rfl⟩
      obtain ⟨_, url, hurl, hsame⟩ := schemeOf_canonical hplatform hcanonical
      have hrequired := hscheme (hweight ▸ hpositive)
      have hkept : (if scan.scheme = [] then schemeOf platform canonical.url else scan.scheme) =
          schemeOf platform canonical.url := by
        split_ifs with hnone
        · rfl
        · exact hrequired.resolve_left hnone
      refine ⟨(), hbound, canonical.url, hcanonical, url, hurl, (), hsame ▸ hrequired, _, rfl, (),
        by simpa using hseen, ?_⟩
      rw [hsame, hkept, EndpointScan.push, if_pos (hweight ▸ hpositive),
        if_pos (hweight ▸ hpositive), ← hweight]
      rfl
  · simp only [scanEndpoint, if_neg hpositive, bind_eq_ok, require_eq_ok, mapError_eq_ok,
      decide_eq_true_eq]
    constructor
    · rintro ⟨_, hbound, canonical, hcanonical, scheme, hscheme, _, hseen, hnext⟩
      refine ⟨⟨canonical, endpoint.weight⟩, ⟨hbound, rfl, hcanonical⟩,
        fun hactive => absurd hactive hpositive, by simpa using hseen, ?_⟩
      rw [← Except.ok.inj hnext, ← Except.ok.inj hscheme, EndpointScan.push, if_neg hpositive,
        if_neg hpositive]
    · rintro ⟨canonical, ⟨hbound, hweight, hcanonical⟩, _, hseen, rfl⟩
      refine ⟨(), hbound, canonical.url, hcanonical, _, rfl, (), by simpa using hseen, ?_⟩
      rw [EndpointScan.push, if_neg (hweight ▸ hpositive), if_neg (hweight ▸ hpositive), ← hweight]
      rfl

/-- Taking the first endpoint off leaves the others to follow the scan with it. -/
theorem scannable_cons {scan : EndpointScan} {raw first : Endpoint} {rest : List Endpoint}
    (hfirst : Canonical platform raw first) :
    Scannable platform upstreamID scan (first :: rest) ↔
      (0 < first.weight → scan.scheme = [] ∨ scan.scheme = schemeOf platform first.url) ∧
        endpointIdentity upstreamID first.url ∉ scan.seen ∧
        Scannable platform upstreamID (scan.push platform upstreamID first) rest := by
  have hne := (schemeOf_canonical hplatform hfirst.url).1
  constructor
  · rintro ⟨hscheme, huniform, hunseen, hnodup⟩
    obtain ⟨hfresh, hdistinct⟩ := List.nodup_cons.mp hnodup
    refine ⟨hscheme first List.mem_cons_self, hunseen first List.mem_cons_self, ?_, ?_, ?_,
      hdistinct⟩
    · intro endpoint hendpoint hpositive
      simp only [EndpointScan.push]
      split_ifs with hactive
      · exact Or.inr (huniform endpoint (List.mem_cons_of_mem _ hendpoint) hpositive first
          List.mem_cons_self hactive)
      · exact hscheme endpoint (List.mem_cons_of_mem _ hendpoint) hpositive
    · intro endpoint hendpoint hpositive other hother
      exact huniform endpoint (List.mem_cons_of_mem _ hendpoint) hpositive other
        (List.mem_cons_of_mem _ hother)
    · intro endpoint hendpoint hseen
      rcases List.mem_cons.mp hseen with hsame | hseen
      · exact hfresh (List.mem_map.mpr ⟨endpoint, hendpoint, hsame⟩)
      · exact hunseen endpoint (List.mem_cons_of_mem _ hendpoint) hseen
  · rintro ⟨hscheme, hfresh, hrest⟩
    -- A positive first endpoint has fixed the scheme of the others.
    have hfixed : 0 < first.weight → ∀ endpoint ∈ rest, 0 < endpoint.weight →
        schemeOf platform first.url = schemeOf platform endpoint.url := by
      intro hactive endpoint hendpoint hpositive
      have hpushed := hrest.scheme endpoint hendpoint hpositive
      rw [show (scan.push platform upstreamID first).scheme = schemeOf platform first.url from
        if_pos hactive] at hpushed
      exact hpushed.resolve_left hne
    refine ⟨List.forall_mem_cons.mpr ⟨hscheme, fun endpoint hendpoint hpositive => ?_⟩, ?_,
      List.forall_mem_cons.mpr ⟨hfresh, fun endpoint hendpoint hseen =>
        hrest.unseen endpoint hendpoint (List.mem_cons_of_mem _ hseen)⟩,
      List.nodup_cons.mpr ⟨fun hmem => ?_, hrest.nodup⟩⟩
    · by_cases hactive : 0 < first.weight
      · rw [← hfixed hactive endpoint hendpoint hpositive]
        exact hscheme hactive
      · have hpushed := hrest.scheme endpoint hendpoint hpositive
        rwa [show (scan.push platform upstreamID first).scheme = scan.scheme from
          if_neg hactive] at hpushed
    · intro endpoint hendpoint hpositive other hother hactive
      rcases List.mem_cons.mp hendpoint with rfl | hlater
      · rcases List.mem_cons.mp hother with rfl | hafter
        · rfl
        · exact (hfixed hpositive other hafter hactive).symm
      · rcases List.mem_cons.mp hother with rfl | hafter
        · exact hfixed hactive endpoint hlater hpositive
        · exact hrest.uniform endpoint hlater hpositive other hafter hactive
    · obtain ⟨endpoint, hendpoint, hsame⟩ := List.mem_map.mp hmem
      refine hrest.unseen endpoint hendpoint ?_
      rw [hsame]
      exact List.mem_cons_self

/-- The loop succeeds exactly on endpoints whose canonical forms are scannable. -/
theorem scanEndpoints_eq_ok {endpoints : List Endpoint} {scan final : EndpointScan} :
    scanEndpoints platform upstreamID field index endpoints scan = .ok final ↔
      ∃ canonical, List.Forall₂ (Canonical platform) endpoints canonical ∧
        Scannable platform upstreamID scan canonical ∧
        final = canonical.foldl (EndpointScan.push platform upstreamID) scan := by
  induction endpoints generalizing index scan with
  | nil =>
    constructor
    · intro h
      cases h
      exact ⟨[], .nil, ⟨by simp, by simp, by simp, by simp⟩, rfl⟩
    · rintro ⟨canonical, hforms, _, rfl⟩
      obtain rfl := List.forall₂_nil_left_iff.mp hforms
      rfl
  | cons first rest ih =>
    simp only [scanEndpoints, bind_eq_ok, scanEndpoint_eq_ok hplatform, ih]
    constructor
    · rintro ⟨_, ⟨head, hhead, hscheme, hseen, rfl⟩, tail, htail, hscan, rfl⟩
      exact ⟨head :: tail, .cons hhead htail,
        (scannable_cons hplatform hhead).mpr ⟨hscheme, hseen, hscan⟩, rfl⟩
    · rintro ⟨canonical, hforms, hscan, rfl⟩
      obtain ⟨head, tail, hhead, htail, rfl⟩ := List.forall₂_cons_left_iff.mp hforms
      obtain ⟨hscheme, hseen, hrest⟩ := (scannable_cons hplatform hhead).mp hscan
      exact ⟨_, ⟨head, hhead, hscheme, hseen, rfl⟩, tail, htail, hrest, rfl⟩

omit hplatform in
theorem foldl_push (canonical : List Endpoint) (scan : EndpointScan) :
    (canonical.foldl (EndpointScan.push platform upstreamID) scan).endpoints =
        scan.endpoints ++
          canonical.map (fun endpoint => (endpoint, endpointIdentity upstreamID endpoint.url)) ∧
      (canonical.foldl (EndpointScan.push platform upstreamID) scan).active =
        scan.active + canonical.countP fun endpoint => 0 < endpoint.weight := by
  induction canonical generalizing scan with
  | nil => simp
  | cons first rest ih =>
    obtain ⟨hendpoints, hactive⟩ := ih (scan.push platform upstreamID first)
    rw [List.foldl_cons, hendpoints, hactive, List.countP_cons]
    refine ⟨by simp [EndpointScan.push], ?_⟩
    simp only [EndpointScan.push, decide_eq_true_eq]
    split_ifs <;> omega

omit hplatform in
/-- The endpoints of a scan are the canonical ones, sorted. -/
theorem perm_sorted (canonical : List Endpoint) :
    canonical.Perm (canonical.foldl (EndpointScan.push platform upstreamID) .start).sorted := by
  have hmerged := (List.mergeSort_perm
    (canonical.foldl (EndpointScan.push platform upstreamID) .start).endpoints fun left right =>
      decide (left.2 ≤ right.2)).map Prod.fst
  rw [(foldl_push canonical .start).1] at hmerged
  have hendpoints : ((EndpointScan.start.endpoints ++ canonical.map fun endpoint =>
      (endpoint, endpointIdentity upstreamID endpoint.url)).map Prod.fst) = canonical := by
    simp [EndpointScan.start, Function.comp_def]
  rw [hendpoints] at hmerged
  unfold EndpointScan.sorted
  rw [(foldl_push canonical .start).1]
  exact hmerged.symm

omit hplatform in
/-- The scheme of a scan is that of any positive endpoint, if they have the same. -/
theorem scheme_foldl_push {scheme : Bytes}
    (h : ∀ endpoint ∈ canonical, 0 < endpoint.weight → schemeOf platform endpoint.url = scheme)
    (scan : EndpointScan) :
    (canonical.foldl (EndpointScan.push platform upstreamID) scan).scheme =
      if ∃ endpoint ∈ canonical, 0 < endpoint.weight then scheme else scan.scheme := by
  induction canonical generalizing scan with
  | nil => simp
  | cons first rest ih =>
    obtain ⟨hfirst, hrest⟩ := List.forall_mem_cons.mp h
    rw [List.foldl_cons, ih hrest]
    by_cases hlater : ∃ endpoint ∈ rest, 0 < endpoint.weight
    · obtain ⟨endpoint, hendpoint, hpositive⟩ := hlater
      rw [if_pos ⟨endpoint, hendpoint, hpositive⟩,
        if_pos ⟨endpoint, List.mem_cons_of_mem _ hendpoint, hpositive⟩]
    · rw [if_neg hlater]
      simp only [EndpointScan.push, List.mem_cons, exists_eq_or_imp, hlater, or_false]
      split_ifs with hpositive
      · exact hfirst hpositive
      · rfl

omit hplatform in
/-- Identities are distinct, so their order fixes the list. -/
theorem sorted_eq_of_perm {left right : EndpointScan} (h : left.endpoints.Perm right.endpoints)
    (hdistinct : (left.endpoints.map Prod.snd).Nodup) : left.sorted = right.sorted := by
  have hsorted : ∀ scan : EndpointScan, (scan.endpoints.mergeSort fun first second =>
      decide (first.2 ≤ second.2)).Pairwise fun first second => first.2 ≤ second.2 := fun scan =>
    pairwise_mergeSort_of_total (fun first second : Endpoint × Bytes => first.2 ≤ second.2)
      (fun _ _ _ => le_trans) (fun _ _ => le_total _ _) scan.endpoints
  have hperm := (List.mergeSort_perm left.endpoints fun first second =>
      decide (first.2 ≤ second.2)).trans (h.trans (List.mergeSort_perm right.endpoints
        fun first second => decide (first.2 ≤ second.2)).symm)
  refine congrArg (List.map Prod.fst) (hperm.eq_of_pairwise ?_ (hsorted left) (hsorted right))
  intro first second hfirst hsecond hle hge
  refine List.inj_on_of_nodup_map hdistinct (List.mem_mergeSort.mp hfirst) ?_ (le_antisymm hle hge)
  exact h.mem_iff.mpr (List.mem_mergeSort.mp hsecond)

/-- What `Normalize` reads of a scan does not depend on the order of the endpoints. -/
theorem scanEndpoints_perm {endpoints others permuted : List Endpoint}
    (hforms : List.Forall₂ (Canonical platform) endpoints canonical)
    (hscan : Scannable platform upstreamID .start canonical) (hperm : canonical.Perm permuted)
    (hothers : List.Forall₂ (Canonical platform) others permuted) :
    ∃ scan other, scanEndpoints platform upstreamID field index endpoints .start = .ok scan ∧
      scanEndpoints platform upstreamID field index others .start = .ok other ∧
      other.active = scan.active ∧ other.scheme = scan.scheme ∧ other.sorted = scan.sorted := by
  have hpermuted : Scannable platform upstreamID .start permuted :=
    ⟨fun endpoint hendpoint => hscan.scheme endpoint (hperm.mem_iff.mpr hendpoint),
      fun endpoint hendpoint hpositive other hother =>
        hscan.uniform endpoint (hperm.mem_iff.mpr hendpoint) hpositive other
          (hperm.mem_iff.mpr hother),
      fun endpoint hendpoint => hscan.unseen endpoint (hperm.mem_iff.mpr hendpoint),
      (hperm.map _).nodup_iff.mp hscan.nodup⟩
  refine ⟨_, _, (scanEndpoints_eq_ok hplatform).mpr ⟨canonical, hforms, hscan, rfl⟩,
    (scanEndpoints_eq_ok hplatform).mpr ⟨permuted, hothers, hpermuted, rfl⟩, ?_, ?_, ?_⟩
  · rw [(foldl_push permuted .start).2, (foldl_push canonical .start).2, hperm.countP_eq]
  · have hcommon : ∃ scheme, ∀ endpoint ∈ canonical, 0 < endpoint.weight →
        schemeOf platform endpoint.url = scheme := by
      by_cases hactive : ∃ endpoint ∈ canonical, 0 < endpoint.weight
      · obtain ⟨endpoint, hendpoint, hpositive⟩ := hactive
        exact ⟨_, hscan.uniform endpoint hendpoint hpositive⟩
      · exact ⟨[], fun endpoint hendpoint hpositive =>
          absurd ⟨endpoint, hendpoint, hpositive⟩ hactive⟩
    obtain ⟨scheme, hscheme⟩ := hcommon
    rw [scheme_foldl_push hscheme, scheme_foldl_push fun endpoint hendpoint =>
      hscheme endpoint (hperm.mem_iff.mpr hendpoint)]
    simp only [hperm.mem_iff]
  · refine (sorted_eq_of_perm ?_ ?_).symm
    · rw [(foldl_push permuted .start).1, (foldl_push canonical .start).1]
      exact (hperm.map _).append_left _
    · rw [(foldl_push canonical .start).1]
      simpa [EndpointScan.start, Function.comp_def] using hscan.nodup

end Scans

/-! ## Balancers -/

/-- Two spellings of a hash source: the letter case of a header name. -/
structure HashKeySource.Respelled (left right : HashKeySource) : Prop where
  type : right.type = left.type
  value : right.value = left.value
  name : right.name = left.name ∨
    (left.type = .header ∧ left.name.map lowerByte = right.name.map lowerByte)

theorem normalizeHashSource_same {left right result : HashKeySource}
    (hsame : HashKeySource.Respelled left right)
    (h : normalizeHashSource left field upstreamID = .ok result) :
    normalizeHashSource right field upstreamID = .ok result := by
  obtain ⟨type, name, value⟩ := left
  obtain ⟨_, other, _⟩ := right
  obtain ⟨rfl, rfl, hname⟩ := hsame
  rcases hname with rfl | ⟨hheader, hlower⟩
  · exact h
  subst hheader
  have hlength : other.length = name.length := by
    simpa using (congrArg List.length hlower).symm
  simp only [normalizeHashSource, bind_eq_ok, require_eq_ok, decide_eq_true_eq] at h ⊢
  obtain ⟨_, hlimits, _, ⟨htoken, hvalue⟩, hresult⟩ := h
  refine ⟨(), hlength ▸ hlimits, (), ⟨validToken_of_lower hlower htoken, hvalue⟩, ?_⟩
  rw [canonicalMIMEHeaderKey_of_lower hlower htoken]
  exact hresult

/-- The canonical source is another spelling. -/
theorem respelled_of_normalizeHashSource {source result : HashKeySource}
    (h : normalizeHashSource source field upstreamID = .ok result) :
    HashKeySource.Respelled source result := by
  obtain ⟨type, name, value⟩ := source
  simp only [normalizeHashSource, bind_eq_ok, require_eq_ok] at h
  obtain ⟨_, _, h⟩ := h
  cases type with
  | header =>
    simp only [bind_eq_ok, require_eq_ok] at h
    obtain ⟨_, _, hresult⟩ := h
    cases hresult
    exact ⟨rfl, rfl, Or.inr ⟨rfl, lowerByte_canonicalMIMEHeaderKey.symm⟩⟩
  | cookie | remoteAddr | literal =>
    simp only [bind_eq_ok, require_eq_ok] at h
    obtain ⟨_, _, hresult⟩ := h
    cases hresult
    exact ⟨rfl, rfl, Or.inl rfl⟩
  | other text => contradiction

theorem normalizeHashSources_same {lefts rights results : List HashKeySource}
    (hsame : List.Forall₂ HashKeySource.Respelled lefts rights)
    (h : normalizeHashSources upstreamID field index lefts = .ok results) :
    normalizeHashSources upstreamID field index rights = .ok results := by
  induction hsame generalizing index results with
  | nil => exact h
  | cons hfirst _ ih =>
    simp only [normalizeHashSources, bind_eq_ok] at h ⊢
    obtain ⟨first, hnormalized, others, hothers, hresult⟩ := h
    exact ⟨first, normalizeHashSource_same hfirst hnormalized, others, ih hothers, hresult⟩

theorem respelled_of_normalizeHashSources {sources results : List HashKeySource}
    (h : normalizeHashSources upstreamID field index sources = .ok results) :
    List.Forall₂ HashKeySource.Respelled sources results := by
  induction sources generalizing index results with
  | nil =>
    cases h
    exact .nil
  | cons first rest ih =>
    simp only [normalizeHashSources, bind_eq_ok] at h
    obtain ⟨source, hsource, others, hothers, hresult⟩ := h
    cases hresult
    exact .cons (respelled_of_normalizeHashSource hsource) (ih hothers)

structure BalancerPolicy.Respelled (left right : BalancerPolicy) : Prop where
  type : right.type = left.type
  sources : List.Forall₂ HashKeySource.Respelled left.sources right.sources

theorem normalizeBalancer_same {left right result : BalancerPolicy}
    (hsame : BalancerPolicy.Respelled left right)
    (h : normalizeBalancer upstreamID field left = .ok result) :
    normalizeBalancer upstreamID field right = .ok result := by
  obtain ⟨_, lefts⟩ := left
  obtain ⟨type, rights⟩ := right
  obtain ⟨rfl, hsources⟩ := hsame
  have hlength : rights.length = lefts.length := hsources.length_eq.symm
  unfold normalizeBalancer at h ⊢
  generalize (if type = BalancerType.other [] then BalancerType.weightedRoundRobin else type) =
    effective at h ⊢
  cases effective with
  | weightedRoundRobin =>
    simp only [bind_eq_ok, require_eq_ok, List.isEmpty_iff] at h ⊢
    obtain ⟨_, rfl, hresult⟩ := h
    obtain rfl := List.forall₂_nil_left_iff.mp hsources
    exact ⟨(), rfl, hresult⟩
  | consistentHash =>
    simp only [bind_eq_ok, require_eq_ok, decide_eq_true_eq] at h ⊢
    obtain ⟨_, hcount, sources, hnormalized, hresult⟩ := h
    exact ⟨(), hlength ▸ hcount, sources, normalizeHashSources_same hsources hnormalized, hresult⟩
  | other text => contradiction

theorem normalizeBalancer_idem {balancer result : BalancerPolicy}
    (h : normalizeBalancer upstreamID field balancer = .ok result) :
    normalizeBalancer upstreamID field result = .ok result := by
  unfold normalizeBalancer at h
  dsimp only at h
  split at h
  · simp only [bind_eq_ok, require_eq_ok, List.isEmpty_iff] at h
    obtain ⟨_, hempty, hresult⟩ := h
    cases hresult
    simp only [normalizeBalancer, reduceCtorEq, if_false, bind_eq_ok, require_eq_ok,
      List.isEmpty_iff]
    exact ⟨(), hempty, rfl⟩
  · simp only [bind_eq_ok, require_eq_ok, decide_eq_true_eq] at h
    obtain ⟨_, hcount, sources, hnormalized, hresult⟩ := h
    cases hresult
    have hrespelled := respelled_of_normalizeHashSources hnormalized
    simp only [normalizeBalancer, reduceCtorEq, if_false, bind_eq_ok, require_eq_ok,
      decide_eq_true_eq]
    exact ⟨(), hrespelled.length_eq ▸ hcount, sources,
      normalizeHashSources_same hrespelled hnormalized, rfl⟩
  · contradiction

/-! ## Transports -/

/-- Two spellings of a TLS policy: those of the server name. -/
structure UpstreamTLSPolicy.Respelled (platform : Platform) (left right : UpstreamTLSPolicy) :
    Prop where
  trustBundleRef : right.trustBundleRef = left.trustBundleRef
  clientCertificateRef : right.clientCertificateRef = left.clientCertificateRef
  serverName : right.serverName = left.serverName ∨
    (left.serverName ≠ [] ∧ SameHost platform left.serverName right.serverName)

/-- Two spellings of a transport: those of its TLS policy. -/
structure TransportConfig.Respelled (platform : Platform) (left right : TransportConfig) :
    Prop where
  same : right = { left with tls := right.tls }
  tls : Option.Rel (UpstreamTLSPolicy.Respelled platform) left.tls right.tls

theorem validateProtocol_idem {protocol result : TransportProtocol}
    (h : validateProtocol upstreamID field protocol = .ok result) :
    validateProtocol upstreamID field result = .ok result := by
  have hknown := validateProtocol_known h
  cases result with
  | auto | http1 | http2 => rfl
  | other text => contradiction

section Transports

variable {platform : Platform} (hplatform : platform.Documented) {upstreamID field scheme : Bytes}

include hplatform

theorem validateTransportTLS_same {left right result : UpstreamTLSPolicy}
    (hsame : UpstreamTLSPolicy.Respelled platform left right)
    (h : validateTransportTLS platform upstreamID field left = .ok result) :
    validateTransportTLS platform upstreamID field right = .ok result := by
  obtain ⟨trust, certificate, name⟩ := left
  obtain ⟨_, _, other⟩ := right
  obtain ⟨rfl, rfl, hname⟩ := hsame
  rcases hname with rfl | ⟨hne, hhost⟩
  · exact h
  simp only [validateTransportTLS, bind_eq_ok, require_eq_ok, decide_eq_true_eq, if_neg hne,
    mapError_eq_ok] at h ⊢
  obtain ⟨_, htrust, _, hcertificate, host, hnormalized, hresult⟩ := h
  have hother := normalizeHost_same hplatform hnormalized hhost
  refine ⟨(), htrust, (), hcertificate, ?_⟩
  simp only [if_neg (hostname_ne_nil hother), bind_eq_ok, mapError_eq_ok]
  exact ⟨host, hother, hresult⟩

theorem validateTransportTLS_idem {policy result : UpstreamTLSPolicy}
    (h : validateTransportTLS platform upstreamID field policy = .ok result) :
    validateTransportTLS platform upstreamID field result = .ok result := by
  simp only [validateTransportTLS, bind_eq_ok, require_eq_ok, decide_eq_true_eq] at h ⊢
  obtain ⟨_, htrust, _, hcertificate, hresult⟩ := h
  split_ifs at hresult with hempty
  · cases hresult
    refine ⟨(), htrust, (), hcertificate, ?_⟩
    rw [if_pos hempty]
    rfl
  · simp only [bind_eq_ok, mapError_eq_ok] at hresult
    obtain ⟨host, hnormalized, hpolicy⟩ := hresult
    cases hpolicy
    have hagain := normalizeHost_idem hplatform hnormalized
    refine ⟨(), htrust, (), hcertificate, ?_⟩
    simp only [if_neg (hostname_ne_nil hagain), bind_eq_ok, mapError_eq_ok]
    exact ⟨host, hagain, rfl⟩

theorem validateTransport_same {left right result : TransportConfig}
    (hsame : TransportConfig.Respelled platform left right)
    (h : validateTransport platform upstreamID scheme field left = .ok result) :
    validateTransport platform upstreamID scheme field right = .ok result := by
  obtain ⟨hright, htls⟩ := hsame
  generalize right.tls = tls at hright htls
  subst hright
  simp only [validateTransport, bind_eq_ok, require_eq_ok, decide_eq_true_eq] at h ⊢
  obtain ⟨_, hdial, _, hheader, _, hidle, _, hmax, _, hhost, protocol, hprotocol, _, hscheme,
    hresult⟩ := h
  refine ⟨(), hdial, (), hheader, (), hidle, (), hmax, (), hhost, protocol, hprotocol, (), ?_, ?_⟩
  · refine hscheme.imp_right fun hnone => ?_
    rw [hnone] at htls
    cases htls
    rfl
  · generalize left.tls = found at htls hresult
    cases htls with
    | none => exact hresult
    | some hpolicy =>
      simp only [bind_eq_ok] at hresult ⊢
      obtain ⟨checked, hchecked, hresult⟩ := hresult
      exact ⟨checked, validateTransportTLS_same hplatform hpolicy hchecked, hresult⟩

theorem validateTransport_idem {transport result : TransportConfig}
    (h : validateTransport platform upstreamID scheme field transport = .ok result) :
    validateTransport platform upstreamID scheme field result = .ok result := by
  simp only [validateTransport, bind_eq_ok, require_eq_ok, decide_eq_true_eq] at h ⊢
  obtain ⟨_, hdial, _, hheader, _, hidle, _, hmax, _, hhost, protocol, hprotocol, _, hscheme,
    hresult⟩ := h
  have hagain := validateProtocol_idem hprotocol
  split at hresult
  · rename_i hnone
    cases hresult
    refine ⟨(), hdial, (), hheader, (), hidle, (), hmax, (), hhost, protocol, hagain, (),
      Or.inr hnone, ?_⟩
    rw [hnone]
    rfl
  · rename_i policy hsome
    simp only [bind_eq_ok] at hresult
    obtain ⟨checked, hchecked, hresult⟩ := hresult
    cases hresult
    refine ⟨(), hdial, (), hheader, (), hidle, (), hmax, (), hhost, protocol, hagain, (),
      Or.inl (hscheme.resolve_right (by simp [hsome])), ?_⟩
    simp only [bind_eq_ok]
    exact ⟨checked, validateTransportTLS_idem hplatform hchecked, rfl⟩

end Transports

/-! ## Health policies -/

/-- The order that statuses are sorted by. -/
def statusBelow (left right : UInt16) : Prop :=
  left.toNat ≤ right.toNat

instance : DecidableRel statusBelow := fun left right => Nat.decLe left.toNat right.toNat

instance : Std.Total statusBelow := ⟨fun left right => Nat.le_total left.toNat right.toNat⟩

instance : IsTrans UInt16 statusBelow := ⟨fun _ _ _ => Nat.le_trans⟩

instance : Std.Antisymm statusBelow :=
  ⟨fun _ _ hle hge => UInt16.toNat_inj.mp (Nat.le_antisymm hle hge)⟩

theorem normalizeStatuses_eq (values : List UInt16) :
    normalizeStatuses values = sortCompact statusBelow values :=
  rfl

theorem mem_normalizeStatuses (values : List UInt16) (status : UInt16) :
    status ∈ normalizeStatuses values ↔ status ∈ values := by
  rw [normalizeStatuses_eq, mem_sortCompact]

theorem normalizeStatuses_congr {values others : List UInt16}
    (h : ∀ status, status ∈ values ↔ status ∈ others) :
    normalizeStatuses values = normalizeStatuses others := by
  rw [normalizeStatuses_eq, normalizeStatuses_eq, sortCompact_congr h]

/-- Two spellings of an active check: the order and repetitions of its statuses. -/
structure ActiveHealthPolicy.Respelled (left right : ActiveHealthPolicy) : Prop where
  same : right = { left with
    healthyStatuses := right.healthyStatuses
    unhealthyStatuses := right.unhealthyStatuses }
  healthy : ∀ status, status ∈ left.healthyStatuses ↔ status ∈ right.healthyStatuses
  unhealthy : ∀ status, status ∈ left.unhealthyStatuses ↔ status ∈ right.unhealthyStatuses

structure PassiveHealthPolicy.Respelled (left right : PassiveHealthPolicy) : Prop where
  same : right = { left with unhealthyStatuses := right.unhealthyStatuses }
  unhealthy : ∀ status, status ∈ left.unhealthyStatuses ↔ status ∈ right.unhealthyStatuses

structure HealthPolicy.Respelled (left right : HealthPolicy) : Prop where
  active : Option.Rel ActiveHealthPolicy.Respelled left.active right.active
  passive : Option.Rel PassiveHealthPolicy.Respelled left.passive right.passive

section Health

variable {upstreamID field : Bytes}

theorem normalizeActive_same {left right result : ActiveHealthPolicy}
    (hsame : ActiveHealthPolicy.Respelled left right)
    (h : normalizeActive upstreamID field left = .ok result) :
    normalizeActive upstreamID field right = .ok result := by
  obtain ⟨hright, hhealthy, hunhealthy⟩ := hsame
  generalize right.healthyStatuses = healthy at hright hhealthy
  generalize right.unhealthyStatuses = unhealthy at hright hunhealthy
  subst hright
  simp only [normalizeActive, bind_eq_ok, require_eq_ok, decide_eq_true_eq] at h ⊢
  obtain ⟨_, hbounds, h⟩ := h
  refine ⟨(), hbounds, ?_⟩
  split at h
  · simp only [bind_eq_ok, require_eq_ok, decide_eq_true_eq] at h ⊢
    obtain ⟨_, ⟨hthreshold, hsome, hother, hpath⟩, _, hoverlap, hresult⟩ := h
    rw [normalizeStatuses_congr hhealthy, normalizeStatuses_congr hunhealthy] at hoverlap hresult
    exact ⟨(), ⟨hthreshold, (not_congr (eq_nil_congr hhealthy)).mpr hsome,
      (not_congr (eq_nil_congr hunhealthy)).mpr hother, hpath⟩, (), hoverlap, hresult⟩
  · simp only [bind_eq_ok, require_eq_ok, decide_eq_true_eq] at h ⊢
    obtain ⟨_, ⟨hfailures, hpath, hhost, hnone, hother⟩, hresult⟩ := h
    have hempty := (eq_nil_congr hhealthy).mpr hnone
    have hempty' := (eq_nil_congr hunhealthy).mpr hother
    refine ⟨(), ⟨hfailures, hpath, hhost, hempty, hempty'⟩, ?_⟩
    -- A TCP check has no statuses in either spelling, so the policies are equal.
    subst hempty hempty'
    obtain ⟨_, _, _, _, _, _, _, _, _, _, _, _⟩ := left
    subst hnone hother
    exact hresult
  · contradiction

theorem respelled_of_normalizeActive {active result : ActiveHealthPolicy}
    (h : normalizeActive upstreamID field active = .ok result) :
    ActiveHealthPolicy.Respelled active result := by
  simp only [normalizeActive, bind_eq_ok, require_eq_ok] at h
  obtain ⟨_, _, h⟩ := h
  split at h
  · simp only [bind_eq_ok, require_eq_ok] at h
    obtain ⟨_, _, _, _, hresult⟩ := h
    cases hresult
    exact ⟨rfl, fun status => (mem_normalizeStatuses _ status).symm,
      fun status => (mem_normalizeStatuses _ status).symm⟩
  · simp only [bind_eq_ok, require_eq_ok] at h
    obtain ⟨_, _, hresult⟩ := h
    cases hresult
    exact ⟨rfl, fun _ => Iff.rfl, fun _ => Iff.rfl⟩
  · contradiction

theorem normalizePassive_same {left right result : PassiveHealthPolicy}
    (hsame : PassiveHealthPolicy.Respelled left right)
    (h : normalizePassive upstreamID field left = .ok result) :
    normalizePassive upstreamID field right = .ok result := by
  obtain ⟨hright, hunhealthy⟩ := hsame
  generalize right.unhealthyStatuses = unhealthy at hright hunhealthy
  subst hright
  simp only [normalizePassive, bind_eq_ok, require_eq_ok, decide_eq_true_eq] at h ⊢
  rw [normalizeStatuses_congr hunhealthy] at h
  exact h

theorem respelled_of_normalizePassive {passive result : PassiveHealthPolicy}
    (h : normalizePassive upstreamID field passive = .ok result) :
    PassiveHealthPolicy.Respelled passive result := by
  simp only [normalizePassive, bind_eq_ok, require_eq_ok] at h
  obtain ⟨_, _, _, _, _, _, hresult⟩ := h
  cases hresult
  exact ⟨rfl, fun status => (mem_normalizeStatuses _ status).symm⟩

theorem normalizeHealth_same {left right result : HealthPolicy}
    (hsame : HealthPolicy.Respelled left right)
    (h : normalizeHealth upstreamID field left = .ok result) :
    normalizeHealth upstreamID field right = .ok result := by
  obtain ⟨leftActive, leftPassive⟩ := left
  obtain ⟨rightActive, rightPassive⟩ := right
  obtain ⟨hactive, hpassive⟩ := hsame
  cases hactive with
  | none =>
    cases hpassive with
    | none => exact h
    | some => contradiction
  | some hcheck =>
    simp only [normalizeHealth, bind_eq_ok] at h ⊢
    obtain ⟨checked, hchecked, h⟩ := h
    refine ⟨checked, normalizeActive_same hcheck hchecked, ?_⟩
    cases hpassive with
    | none => exact h
    | some hwatch =>
      simp only [bind_eq_ok] at h ⊢
      obtain ⟨watched, hwatched, hresult⟩ := h
      exact ⟨watched, normalizePassive_same hwatch hwatched, hresult⟩

theorem normalizeHealth_idem {policy result : HealthPolicy}
    (h : normalizeHealth upstreamID field policy = .ok result) :
    normalizeHealth upstreamID field result = .ok result := by
  refine normalizeHealth_same ?_ h
  obtain ⟨active, passive⟩ := policy
  cases active with
  | none =>
    cases passive with
    | none =>
      cases h
      exact ⟨.none, .none⟩
    | some passive => contradiction
  | some active =>
    simp only [normalizeHealth, bind_eq_ok] at h
    obtain ⟨checked, hchecked, h⟩ := h
    have hactive := respelled_of_normalizeActive hchecked
    cases passive with
    | none =>
      cases h
      exact ⟨.some hactive, .none⟩
    | some passive =>
      simp only [bind_eq_ok] at h
      obtain ⟨watched, hwatched, hresult⟩ := h
      cases hresult
      exact ⟨.some hactive, .some (respelled_of_normalizePassive hwatched)⟩

end Health

/-! ## Retry policies -/

/-- Two spellings of a retry policy: the order, repetitions and letter case of its methods,
and the order and repetitions of its statuses. -/
structure RetryPolicy.Respelled (tables : UnicodeTables) (left right : RetryPolicy) : Prop where
  maxAttempts : right.maxAttempts = left.maxAttempts
  methods : ∀ method, method ∈ left.methods.map (toUpper tables) ↔
    method ∈ right.methods.map (toUpper tables)
  connectFailure : right.retryOn.connectFailure = left.retryOn.connectFailure
  connectionFailure : right.retryOn.connectionFailure = left.retryOn.connectionFailure
  responseHeaderTimeout : right.retryOn.responseHeaderTimeout = left.retryOn.responseHeaderTimeout
  statuses : ∀ status, status ∈ left.retryOn.statuses ↔ status ∈ right.retryOn.statuses
  budget : right.budget = left.budget
  totalTimeout : right.totalTimeout = left.totalTimeout

theorem upperMethods_eq_ok {tables : UnicodeTables} {methods result : List Bytes} :
    upperMethods tables upstreamID field index methods = .ok result ↔
      (∀ method ∈ methods.map (toUpper tables), validToken method = true) ∧
        result = methods.map (toUpper tables) := by
  induction methods generalizing index result with
  | nil =>
    refine ⟨fun h => ⟨by simp, (Except.ok.inj h).symm⟩, fun h => ?_⟩
    rw [h.2]
    rfl
  | cons first rest ih =>
    simp only [upperMethods, bind_eq_ok, require_eq_ok, ih, List.map_cons, List.forall_mem_cons]
    constructor
    · rintro ⟨_, hfirst, others, ⟨hrest, rfl⟩, hresult⟩
      exact ⟨⟨hfirst, hrest⟩, (Except.ok.inj hresult).symm⟩
    · rintro ⟨⟨hfirst, hrest⟩, rfl⟩
      exact ⟨(), hfirst, _, ⟨hrest, rfl⟩, rfl⟩

theorem checkStatuses_eq_ok {statuses : List UInt16} {result : Unit} :
    checkStatuses upstreamID field index statuses = .ok result ↔
      ∀ status ∈ statuses, retryableStatus status = true := by
  induction statuses generalizing index with
  | nil => simp [checkStatuses]
  | cons first rest ih =>
    simp only [checkStatuses, bind_eq_ok, require_eq_ok, ih, List.forall_mem_cons]
    constructor
    · rintro ⟨_, hfirst, hrest⟩
      exact ⟨hfirst, hrest⟩
    · rintro ⟨hfirst, hrest⟩
      exact ⟨(), hfirst, hrest⟩

def canonicalMethods (tables : UnicodeTables) (methods : List Bytes) : List Bytes :=
  sortCompact (· ≤ ·) (methods.map (toUpper tables))

/-- The result of a policy that is not legacy. -/
theorem normalizeRetry_eq_ok {tables : UnicodeTables} {policy result : RetryPolicy}
    (hlegacy : retryPolicyIsLegacy policy = false) :
    normalizeRetry tables upstreamID field policy = .ok result ↔
      retryBounds policy = true ∧
        (∀ method ∈ policy.methods.map (toUpper tables), validToken method = true) ∧
        (∀ status ∈ policy.retryOn.statuses, retryableStatus status = true) ∧
        result = { policy with
          methods := canonicalMethods tables policy.methods
          retryOn := { policy.retryOn with
            statuses := normalizeStatuses policy.retryOn.statuses } } := by
  rw [normalizeRetry, if_neg (by simp [hlegacy])]
  simp only [bind_eq_ok, require_eq_ok, upperMethods_eq_ok, checkStatuses_eq_ok,
    mem_normalizeStatuses]
  constructor
  · rintro ⟨_, hbounds, _, ⟨hmethods, rfl⟩, _, hstatuses, hresult⟩
    exact ⟨hbounds, hmethods, hstatuses, (Except.ok.inj hresult).symm⟩
  · rintro ⟨hbounds, hmethods, hstatuses, rfl⟩
    exact ⟨(), hbounds, _, ⟨hmethods, rfl⟩, (), hstatuses, rfl⟩

section Retries

variable {tables : UnicodeTables} {upstreamID field : Bytes} {left right result : RetryPolicy}

theorem retryPolicyIsLegacy_same (h : RetryPolicy.Respelled tables left right) :
    retryPolicyIsLegacy right = retryPolicyIsLegacy left := by
  have hmethods : right.methods.isEmpty = left.methods.isEmpty := by
    have hupper := eq_nil_congr h.methods
    rwa [List.map_eq_nil_iff, List.map_eq_nil_iff, ← List.isEmpty_iff, ← List.isEmpty_iff,
      ← Bool.eq_iff_iff] at hupper
  have hstatuses : right.retryOn.statuses.isEmpty = left.retryOn.statuses.isEmpty := by
    rw [Bool.eq_iff_iff, List.isEmpty_iff, List.isEmpty_iff]
    exact eq_nil_congr h.statuses
  simp only [retryPolicyIsLegacy, h.maxAttempts, hmethods, h.connectFailure, h.connectionFailure,
    h.responseHeaderTimeout, hstatuses, h.budget, h.totalTimeout]

theorem normalizeRetry_same (hsame : RetryPolicy.Respelled tables left right)
    (h : normalizeRetry tables upstreamID field left = .ok result) :
    normalizeRetry tables upstreamID field right = .ok result := by
  cases hlegacy : retryPolicyIsLegacy left with
  | true =>
    rw [normalizeRetry, if_pos hlegacy] at h
    rw [normalizeRetry, if_pos ((retryPolicyIsLegacy_same hsame).trans hlegacy)]
    exact h
  | false =>
    rw [normalizeRetry_eq_ok hlegacy] at h
    rw [normalizeRetry_eq_ok ((retryPolicyIsLegacy_same hsame).trans hlegacy)]
    obtain ⟨hbounds, hmethods, hstatuses, rfl⟩ := h
    refine ⟨?_, fun method hmethod => hmethods method ((hsame.methods method).mpr hmethod),
      fun status hstatus => hstatuses status ((hsame.statuses status).mpr hstatus), ?_⟩
    · simp only [retryBounds, hsame.maxAttempts, hsame.totalTimeout, hsame.budget]
      exact hbounds
    · have hcanonical : canonicalMethods tables right.methods =
          canonicalMethods tables left.methods :=
        (sortCompact_congr hsame.methods).symm
      simp only [hcanonical, normalizeStatuses_congr hsame.statuses, hsame.maxAttempts,
        hsame.connectFailure, hsame.connectionFailure, hsame.responseHeaderTimeout, hsame.budget,
        hsame.totalTimeout]

theorem normalizeRetry_idem (htables : tables.Uppers)
    (h : normalizeRetry tables upstreamID field left = .ok result) :
    normalizeRetry tables upstreamID field result = .ok result := by
  cases hlegacy : retryPolicyIsLegacy left with
  | true =>
    rw [normalizeRetry, if_pos hlegacy] at h
    cases h
    rfl
  | false =>
    -- The canonical policy is another spelling.
    refine normalizeRetry_same ?_ h
    rw [normalizeRetry_eq_ok hlegacy] at h
    obtain ⟨_, hmethods, _, rfl⟩ := h
    have hupper : (canonicalMethods tables left.methods).map (toUpper tables) =
        canonicalMethods tables left.methods := by
      refine (List.map_congr_left fun method hmethod => ?_).trans (List.map_id _)
      have hmem := (mem_sortCompact _ method).mp hmethod
      have htoken := hmethods method hmem
      obtain ⟨raw, _, rfl⟩ := List.mem_map.mp hmem
      exact toUpper_toUpper htables (lt_of_validToken htoken)
    refine ⟨rfl, fun method => ?_, rfl, rfl, rfl, fun status => ?_, rfl, rfl⟩
    · rw [hupper]
      exact (mem_sortCompact _ method).symm
    · exact (mem_normalizeStatuses _ status).symm

end Retries

/-! ## Upstreams -/

/-- Two spellings of an upstream: the order of its endpoints, and spellings of its parts. -/
structure Respelled (platform : Platform) (left right : Upstream) : Prop where
  id : right.id = left.id
  endpoints : ∃ permuted, left.endpoints.Perm permuted ∧
    List.Forall₂ (Endpoint.Respelled platform) permuted right.endpoints
  balancer : BalancerPolicy.Respelled left.balancer right.balancer
  transport : TransportConfig.Respelled platform left.transport right.transport
  health : HealthPolicy.Respelled left.health right.health
  retry : RetryPolicy.Respelled platform.tables left.retry right.retry

section Upstreams

variable {platform : Platform} (hplatform : platform.Documented) {field : Bytes}

include hplatform

/-- The endpoints of another spelling have the same canonical forms in another order. -/
theorem exists_canonical_perm {left right : Upstream} (hsame : Respelled platform left right)
    (hforms : List.Forall₂ (Canonical platform) left.endpoints canonical) :
    ∃ permuted, canonical.Perm permuted ∧
      List.Forall₂ (Canonical platform) right.endpoints permuted := by
  obtain ⟨endpoints, hperm, hspelled⟩ := hsame.endpoints
  obtain ⟨permuted, hpermuted, hback⟩ := List.perm_comp_forall₂ hperm.symm hforms
  refine ⟨permuted, hback.symm, ?_⟩
  clear hperm hback hforms
  generalize right.endpoints = others at hspelled ⊢
  induction hspelled generalizing permuted with
  | nil => exact hpermuted
  | cons hfirst _ ih =>
    obtain ⟨form, forms, hform, hrest, rfl⟩ := List.forall₂_cons_left_iff.mp hpermuted
    refine .cons ⟨hfirst.weight ▸ hform.bound, hform.weight.trans hfirst.weight.symm, ?_⟩
      (ih forms hrest)
    exact normalizeEndpoint_same hplatform hfirst hform.url

theorem canonical_self {endpoints : List Endpoint}
    (hforms : List.Forall₂ (Canonical platform) endpoints canonical) :
    ∀ endpoint ∈ canonical, Canonical platform endpoint endpoint := by
  induction hforms with
  | nil => simp
  | cons hfirst _ ih =>
    refine List.forall_mem_cons.mpr ⟨⟨hfirst.weight ▸ hfirst.bound, rfl, ?_⟩, ih⟩
    exact (normalizeEndpoint_idem hplatform hfirst.url).1

theorem normalizeUpstream_same {left right result : Upstream}
    (hsame : Respelled platform left right)
    (h : normalizeUpstream platform field left = .ok result) :
    normalizeUpstream platform field right = .ok result := by
  simp only [normalizeUpstream, bind_eq_ok, require_eq_ok, decide_eq_true_eq] at h ⊢
  obtain ⟨scan, hscan, _, hactive, balancer, hbalancer, transport, htransport, health, hhealth,
    retry, hretry, hresult⟩ := h
  obtain ⟨canonical, hforms, hscannable, _⟩ := (scanEndpoints_eq_ok hplatform).mp hscan
  obtain ⟨permuted, hperm, hothers⟩ := exists_canonical_perm hplatform hsame hforms
  obtain ⟨found, other, hfound, hother, hsameActive, hsameScheme, hsorted⟩ :=
    scanEndpoints_perm hplatform hforms hscannable hperm hothers
  obtain rfl : found = scan := Except.ok.inj (hfound.symm.trans hscan)
  rw [hsame.id]
  refine ⟨other, hother, (), hsameActive ▸ hactive, balancer,
    normalizeBalancer_same hsame.balancer hbalancer, transport, ?_, health,
    normalizeHealth_same hsame.health hhealth, retry, normalizeRetry_same hsame.retry hretry, ?_⟩
  · rw [hsameScheme]
    exact validateTransport_same hplatform hsame.transport htransport
  · rw [hsorted]
    exact hresult

/-- The canonical upstream has the ID and as many endpoints, and is normalized to itself. -/
theorem normalizeUpstream_idem {resource result : Upstream}
    (h : normalizeUpstream platform field resource = .ok result) :
    result.id = resource.id ∧ result.endpoints.length = resource.endpoints.length ∧
      normalizeUpstream platform field result = .ok result := by
  simp only [normalizeUpstream, bind_eq_ok, require_eq_ok, decide_eq_true_eq] at h ⊢
  obtain ⟨scan, hscan, _, hactive, balancer, hbalancer, transport, htransport, health, hhealth,
    retry, hretry, hresult⟩ := h
  obtain ⟨canonical, hforms, hscannable, hfinal⟩ := (scanEndpoints_eq_ok hplatform).mp hscan
  cases hresult
  have hperm : canonical.Perm scan.sorted := hfinal ▸ perm_sorted canonical
  have hothers : List.Forall₂ (Canonical platform) scan.sorted scan.sorted :=
    List.forall₂_same.mpr fun endpoint hendpoint =>
      canonical_self hplatform hforms endpoint (hperm.mem_iff.mpr hendpoint)
  obtain ⟨found, other, hfound, hother, hsameActive, hsameScheme, hsorted⟩ :=
    scanEndpoints_perm hplatform hforms hscannable hperm hothers
  obtain rfl : found = scan := Except.ok.inj (hfound.symm.trans hscan)
  refine ⟨rfl, hperm.length_eq.symm.trans hforms.length_eq.symm, other, hother, (),
    hsameActive ▸ hactive, balancer, normalizeBalancer_idem hbalancer, transport, ?_, health,
    normalizeHealth_idem hhealth, retry, normalizeRetry_idem hplatform.uppers hretry, ?_⟩
  · rw [hsameScheme]
    exact validateTransport_idem hplatform htransport
  · rw [hsorted]
    rfl

theorem normalizeFrom_same {lefts rights : List Upstream}
    (hsame : List.Forall₂ (Respelled platform) lefts rights) {total : Nat} {seen : List Bytes}
    {results : List Upstream} (h : normalizeFrom platform index lefts seen total = .ok results) :
    normalizeFrom platform index rights seen total = .ok results := by
  induction hsame generalizing index total seen results with
  | nil => exact h
  | @cons left right _ _ hfirst _ ih =>
    obtain ⟨permuted, hperm, hspelled⟩ := hfirst.endpoints
    have hlength : right.endpoints.length = left.endpoints.length :=
      hspelled.length_eq.symm.trans hperm.length_eq.symm
    have hempty : right.endpoints = [] ↔ left.endpoints = [] := by
      rw [← List.length_eq_zero_iff, hlength, List.length_eq_zero_iff]
    simp only [normalizeFrom, bind_eq_ok, require_eq_ok, hfirst.id, hlength] at h ⊢
    obtain ⟨_, hid, _, hseen, _, hsome, _, hlimit, _, htotal, first, hnormalized, others, hothers,
      hresult⟩ := h
    simp only [decide_eq_true_eq] at hsome ⊢
    exact ⟨(), of_decide_eq_true hid, (), hseen, (), (not_congr hempty).mpr hsome, (),
      of_decide_eq_true hlimit, (), of_decide_eq_true htotal, first,
      normalizeUpstream_same hplatform hfirst hnormalized, others, ih hothers, hresult⟩

theorem normalizeFrom_idem {resources results : List Upstream} {total : Nat} {seen : List Bytes}
    (h : normalizeFrom platform index resources seen total = .ok results) :
    results.length = resources.length ∧
      normalizeFrom platform index results seen total = .ok results := by
  induction resources generalizing index total seen results with
  | nil =>
    cases h
    exact ⟨rfl, rfl⟩
  | cons resource rest ih =>
    simp only [normalizeFrom, bind_eq_ok, require_eq_ok] at h
    obtain ⟨_, hid, _, hseen, _, hsome, _, hlimit, _, htotal, first, hnormalized, others, hothers,
      hresult⟩ := h
    cases hresult
    obtain ⟨hcount, hrest⟩ := ih hothers
    obtain ⟨hsameID, hlength, hfirst⟩ := normalizeUpstream_idem hplatform hnormalized
    have hempty : first.endpoints = [] ↔ resource.endpoints = [] := by
      rw [← List.length_eq_zero_iff, hlength, List.length_eq_zero_iff]
    simp only [normalizeFrom, bind_eq_ok, require_eq_ok, hsameID, hlength]
    simp only [decide_eq_true_eq] at hsome ⊢
    exact ⟨by simp [hcount], (), of_decide_eq_true hid, (), hseen, (),
      (not_congr hempty).mpr hsome, (), of_decide_eq_true hlimit, (), of_decide_eq_true htotal,
      first, hfirst, others, hrest, rfl⟩

end Upstreams

/-- `Normalize` maps its result to itself, and every other spelling of an accepted list to
the same result.  So preparing the other spelling makes the same plans, with the same
schedules, continua and ordinals. -/
theorem normalize_canonical (platform : Platform) (hplatform : platform.Documented)
    (resources normalized : List Upstream) (h : normalize platform resources = .ok normalized) :
    normalize platform normalized = .ok normalized ∧
      ∀ others, List.Forall₂ (Respelled platform) resources others →
        normalize platform others = .ok normalized ∧
          ∀ (set : ResourceSet) (world : World),
            world.prepareCall platform { set with upstreams := others } =
              world.prepareCall platform { set with upstreams := resources } := by
  have haccepted := h
  simp only [normalize, bind_eq_ok, require_eq_ok, decide_eq_true_eq] at h
  obtain ⟨_, hcount, hfrom⟩ := h
  obtain ⟨hlength, hagain⟩ := normalizeFrom_idem hplatform hfrom
  refine ⟨?_, fun others hothers => ?_⟩
  · simp only [normalize, bind_eq_ok, require_eq_ok, decide_eq_true_eq]
    exact ⟨(), hlength ▸ hcount, hagain⟩
  · have hsame : normalize platform others = .ok normalized := by
      simp only [normalize, bind_eq_ok, require_eq_ok, decide_eq_true_eq]
      exact ⟨(), hothers.length_eq ▸ hcount, normalizeFrom_same hplatform hothers hfrom⟩
    refine ⟨hsame, fun set world => ?_⟩
    simp only [World.prepareCall, hsame, haccepted]
    rfl

/-- `url.Parse` on a URL that has a scheme, a host and perhaps a port. -/
def parseBare (raw : Bytes) : URL :=
  let scheme := raw.takeWhile (· != 58)
  let authority := raw.drop (scheme.length + 3)
  if authority.contains 58 then
    let port := (authority.reverse.takeWhile (· != 58)).reverse
    let host := authority.take (authority.length - port.length - 1)
    let hostname := if host.contains 58 then (host.drop 1).dropLast else host
    ⟨scheme, [], false, authority, hostname, port, [], [], [], []⟩
  else ⟨scheme, [], false, authority, authority, [], [], [], [], []⟩

/-- A platform that tells URLs apart. -/
def parsingPlatform : Platform :=
  { samplePlatform with parseURL := fun raw => .ok (parseBare raw) }

theorem parseBare_canonical {scheme host : Bytes} {number : Nat} (hscheme : (58 : UInt8) ∉ scheme) :
    parseBare (scheme ++ ascii "://" ++ joinHostPort host (decimal number)) =
      ⟨scheme, [], false, joinHostPort host (decimal number), host, decimal number, [], [], [],
        []⟩ := by
  obtain ⟨before, hauthority, hhost⟩ : ∃ before,
      joinHostPort host (decimal number) = before ++ 58 :: decimal number ∧
        (if before.contains 58 then (before.drop 1).dropLast else before) = host := by
    unfold joinHostPort
    split_ifs with hcolon
    · have hbracketed : ([91] ++ host ++ [93] : Bytes).contains 58 = true := by
        simpa using hcolon
      refine ⟨[91] ++ host ++ [93], by simp, ?_⟩
      rw [if_pos hbracketed]
      simp
    · exact ⟨host, by simp, if_neg hcolon⟩
  have htake : (scheme ++ ascii "://" ++ joinHostPort host (decimal number)).takeWhile (· != 58) =
      scheme := by
    rw [List.append_assoc, List.takeWhile_append_of_pos]
    · exact List.append_nil scheme
    · intro byte hbyte
      simpa using fun h : byte = 58 => hscheme (h ▸ hbyte)
  have hdrop : (scheme ++ ascii "://" ++ joinHostPort host (decimal number)).drop
      (scheme.length + 3) = joinHostPort host (decimal number) := by
    rw [List.append_assoc, ← List.drop_drop, List.drop_left]
    rfl
  have hport : ((before ++ 58 :: decimal number).reverse.takeWhile (· != 58)).reverse =
      decimal number := by
    rw [List.reverse_append, List.reverse_cons, List.append_assoc, List.takeWhile_append_of_pos]
    · simp
    · intro byte hbyte
      have hdigit := isDigit_of_mem_decimal byte (List.mem_reverse.mp hbyte)
      rw [bne_iff_ne]
      rintro rfl
      contradiction
  have hbefore : (before ++ 58 :: decimal number).take
      ((before ++ 58 :: decimal number).length - (decimal number).length - 1) = before := by
    rw [show (before ++ 58 :: decimal number).length - (decimal number).length - 1 =
      before.length by simp; omega]
    exact List.take_left
  have hcolon : (before ++ 58 :: decimal number).contains 58 = true := by simp
  unfold parseBare
  dsimp only
  rw [htake, hdrop, hauthority, if_pos hcolon, hport, hbefore, hhost]

theorem parsingPlatform_documented : parsingPlatform.Documented where
  uppers := by
    intro rune hwide hletter
    have hsame : parsingPlatform.tables.toUpper rune = rune := rfl
    omega
  unmapped _ hvalid hzone := ⟨hvalid, hzone, rfl⟩
  dotted _ _ := rfl
  parsed scheme host number hscheme _ _ _ := by
    refine congrArg Except.ok (parseBare_canonical ?_)
    rcases hscheme with rfl | rfl
    · decide
    · decide

/-- A host in capitals with a trailing dot and no port, and a method in small letters. -/
theorem normalize_canonical_spelled :
    ∃ normalized, normalize parsingPlatform [sampleUpstream] = .ok normalized ∧
      normalize parsingPlatform [{ sampleUpstream with
        endpoints := [⟨ascii "http://APP.", 1⟩]
        retry := { sampleUpstream.retry with methods := [ascii "GET", ascii "get"] } }] =
        .ok normalized := by
  have hok : (normalize parsingPlatform [sampleUpstream]).isOk = true := by decide +kernel
  obtain ⟨normalized, hnormalized⟩ := exists_of_isOk hok
  refine ⟨normalized, hnormalized, ?_⟩
  refine ((normalize_canonical parsingPlatform parsingPlatform_documented _ _ hnormalized).2 _
    (.cons ?_ .nil)).1
  have hendpoint : Endpoint.Respelled parsingPlatform ⟨ascii "http://app:80", 1⟩
      ⟨ascii "http://APP.", 1⟩ := by
    refine ⟨rfl, _, _, rfl, rfl, ?_⟩
    refine ⟨by decide, by decide, by decide, by decide, by decide, by decide, by decide, ?_⟩
    exact Or.inr ⟨by decide, by decide, by decide⟩
  have hmethods : ∀ method, method ∈ [ascii "get"].map (toUpper parsingPlatform.tables) ↔
      method ∈ [ascii "GET", ascii "get"].map (toUpper parsingPlatform.tables) := by
    intro method
    have hupper : toUpper parsingPlatform.tables (ascii "GET") =
      toUpper parsingPlatform.tables (ascii "get") := by decide +kernel
    simp [hupper]
  refine ⟨rfl, ⟨_, .refl _, .cons hendpoint .nil⟩, ⟨rfl, .nil⟩, ⟨rfl, .none⟩, ⟨.some ?_, .none⟩,
    ⟨rfl, hmethods, rfl, rfl, rfl, fun _ => Iff.rfl, rfl, rfl⟩⟩
  exact ⟨rfl, fun _ => Iff.rfl, fun _ => Iff.rfl⟩

end GGateway.Upstream
