import GGateway.Router.Index
import GGateway.Router.Search

/-!
# Matching a request

`Router.Match` of `internal/router/router.go`: the host is normalized only when
some route has hosts, and the exact trie, the wildcard trie and the hostless
trie are visited in this order with one matcher state.
-/

set_option linter.dupNamespace false

namespace GGateway.Router

open Text Library

/-- The two kinds of error `Match` returns. -/
inductive MatchError where
  | host (cause : HostError)
  | query (cause : QueryError)
  deriving DecidableEq, Repr

structure Result where
  found : Bool
  methodNotAllowed : Bool
  routeIndex : Int
  params : List ParamSpan
  allow : List Bytes
  deriving DecidableEq, Repr

/-- The zero value of `Result`. -/
def Result.zero : Result :=
  ⟨false, false, 0, [], []⟩

def Result.ofWinner (routeIndex : Int) (params : List ParamSpan) : Result :=
  { Result.zero with found := true, routeIndex := routeIndex, params := params }

def Result.ofAllow (allow : List Bytes) : Result :=
  { Result.zero with methodNotAllowed := true, allow := allow }

/-- The end of `Match`. -/
def MatcherState.result (state : MatcherState) : Result :=
  match state.found with
  | some winner => .ofWinner winner.routeIndex winner.params
  | none => if state.gathered = ∅ then .zero else .ofAllow (state.gathered.sort (· ≤ ·))

/-- The path that is matched; an empty one stands for the root. -/
def Request.matchedPath (request : Request) : Bytes :=
  if request.path = [] then [slash] else request.path

/-- The host without its first label, when that label is not empty. -/
def wildcardSuffix (host : Bytes) : Option Bytes :=
  match indexByte host dot with
  | none => none
  | some separator => if 0 < separator then some (host.drop (separator + 1)) else none

variable (tables : UnicodeTables)

/-- `state.visit(tree, 1)`, which does nothing on `nil`. -/
def visitTree (request : Request) (tree : Option PathNode)
    (state : MatcherState) : Except MatchError MatcherState :=
  match tree with
  | none => .ok state
  | some node => (visit tables request request.matchedPath node 1 state).mapError .query

/-- `Router.Match` up to the point where the matcher state is complete. -/
def Router.matchState (router : Router) (request : Request) :
    Except MatchError MatcherState := do
  let state ←
    if router.exactHosts ≠ [] ∨ router.wildcardHosts ≠ [] then do
      let host ← (normalizeRequestHost tables request.host).mapError MatchError.host
      let state ← visitTree tables request (router.exactHosts.lookup host) .start
      match wildcardSuffix host with
      | none => pure state
      | some suffix => visitTree tables request (router.wildcardHosts.lookup suffix) state
    else pure .start
  visitTree tables request (some router.hostless) state

/-- `Router.Match`. -/
def Router.match (router : Router) (request : Request) :
    Except MatchError Result :=
  MatcherState.result <$> router.matchState tables request

/-! ## Match as one search -/

/-- The buckets whose patterns match a normalized host. -/
def hostBuckets (host : Bytes) : List Bucket :=
  .exact host :: ((wildcardSuffix host).map Bucket.wildcard).toList

/-- The buckets that are consulted for a request, in order. -/
def consulted (hosted : Bool) (request : Request) :
    Except HostError (List Bucket) :=
  if hosted then
    match normalizeRequestHost tables request.host with
    | .error cause => .error cause
    | .ok host => .ok (hostBuckets host ++ [.hostless])
  else .ok [.hostless]

/-- The trail through a list of buckets. -/
def Router.trail (router : Router) (path : Bytes) (buckets : List Bucket) : List Candidate :=
  buckets.flatMap fun bucket => childTrail path (router.tree bucket) 1

variable {tables : UnicodeTables} {request : Request} {router : Router}
  {placed : List (Bucket × Candidate)}

theorem visitTree_eq_search (h : router.Holds Final placed) (bucket : Bucket)
    (state : MatcherState) :
    visitTree tables request (router.tree bucket) state =
      (search tables request request.matchedPath state
        (childTrail request.matchedPath (router.tree bucket) 1)).mapError .query := by
  cases htree : router.tree bucket with
  | none => rfl
  | some tree =>
    simp only [visitTree, childTrail, visit_eq_search (h.tree_some bucket tree htree)]

/-- Consecutive searches with a wrapped error are one search with a wrapped
error. -/
theorem mapError_search_append (tables : UnicodeTables) (request : Request) (path : Bytes)
    (state : MatcherState) (front back : List Candidate) :
    (search tables request path state (front ++ back)).mapError MatchError.query =
      ((search tables request path state front).mapError MatchError.query >>= fun next =>
        (search tables request path next back).mapError MatchError.query) := by
  simp only [search, Incumbent.run_append]
  cases Incumbent.run Winner.best Candidate.key (judge tables request path) state front <;> rfl

/-- Some placement has a host. -/
def hosted (placed : List (Bucket × Candidate)) : Bool :=
  placed.any fun entry => entry.1 != .hostless

theorem hosted_eq_true_iff : hosted placed = true ↔ ∃ entry ∈ placed, entry.1 ≠ .hostless := by
  simp [hosted, List.any_eq_true]

/-- `Match` is the search along the trail of the consulted buckets. -/
theorem matchState_eq_search (h : router.Holds Final placed) (tables : UnicodeTables)
    (request : Request) :
    router.matchState tables request =
      ((consulted tables (hosted placed) request).mapError MatchError.host >>= fun buckets =>
      (search tables request request.matchedPath .start
        (router.trail request.matchedPath buckets)).mapError MatchError.query) := by
  have hexact : ∀ host, router.exactHosts.lookup host = router.tree (.exact host) := fun _ => rfl
  have hwildcard : ∀ suffix, router.wildcardHosts.lookup suffix = router.tree (.wildcard suffix) :=
    fun _ => rfl
  have hhostless : some router.hostless = router.tree .hostless := rfl
  unfold Router.matchState consulted
  simp only [hexact, hwildcard, hhostless, visitTree_eq_search h, h.hosted_iff,
    ← hosted_eq_true_iff]
  have hok : ∀ host : Bytes, (Except.ok host : Except HostError Bytes).mapError MatchError.host =
      pure host := fun _ => rfl
  have hokBuckets : ∀ buckets : List Bucket,
      (Except.ok buckets : Except HostError (List Bucket)).mapError MatchError.host =
        pure buckets := fun _ => rfl
  by_cases hhosted : hosted placed = true
  · simp only [hhosted, if_true]
    cases normalizeRequestHost tables request.host with
    | error cause => rfl
    | ok host =>
      cases hsuffix : wildcardSuffix host with
      | none =>
        simp only [hok, hokBuckets, pure_bind, hostBuckets, hsuffix, Router.trail,
          Option.map_none, Option.toList_none, List.cons_append, List.nil_append,
          List.flatMap_cons, List.flatMap_nil, List.append_nil, mapError_search_append]
      | some suffix =>
        simp only [hok, hokBuckets, pure_bind, hostBuckets, hsuffix, Router.trail,
          Option.map_some, Option.toList_some, List.cons_append, List.nil_append,
          List.flatMap_cons, List.flatMap_nil, List.append_nil, mapError_search_append]
  · simp only [hhosted, Bool.false_eq_true, if_false, hokBuckets, pure_bind, Router.trail,
      List.flatMap_cons, List.flatMap_nil, List.append_nil]

/-- `Match` once the consulted buckets are known. -/
theorem matchState_of_consulted (h : router.Holds Final placed) {buckets : List Bucket}
    (hconsulted : consulted tables (hosted placed) request = .ok buckets) :
    router.matchState tables request =
      (search tables request request.matchedPath .start
        (router.trail request.matchedPath buckets)).mapError MatchError.query := by
  rw [matchState_eq_search h, hconsulted]
  rfl

theorem matchState_of_consulted_error (h : router.Holds Final placed) {cause : HostError}
    (hconsulted : consulted tables (hosted placed) request = .error cause) :
    router.matchState tables request = .error (.host cause) := by
  rw [matchState_eq_search h, hconsulted]
  rfl

theorem consulted_eq_error_iff {hosted : Bool} {cause : HostError} :
    consulted tables hosted request = .error cause ↔
      hosted = true ∧ normalizeRequestHost tables request.host = .error cause := by
  unfold consulted
  cases hosted with
  | false => simp
  | true => cases normalizeRequestHost tables request.host <;> simp

theorem mem_router_trail (h : router.Holds Final placed) {path : Bytes} {buckets : List Bucket}
    {value : Candidate} :
    value ∈ router.trail path buckets ↔
      ∃ bucket ∈ buckets, (bucket, value) ∈ placed ∧ Reaches path value.path.segments 1 := by
  have hbucket : ∀ bucket, value ∈ childTrail path (router.tree bucket) 1 ↔
      (bucket, value) ∈ placed ∧ Reaches path value.path.segments 1 := by
    intro bucket
    cases htree : router.tree bucket with
    | none =>
      have hhosted : bucket ≠ .hostless := by
        rintro rfl
        simp [Router.tree] at htree
      have hempty := (h.tree_none bucket hhosted).mp htree
      simp only [childTrail, List.not_mem_nil, false_iff, not_and]
      intro hentry
      have hitem := mem_bucketItems.mpr ⟨hentry, rfl⟩
      rw [hempty] at hitem
      simp at hitem
    | some tree =>
      simp only [childTrail, mem_trail_iff (h.tree_some bucket tree htree), mem_bucketItems]
      constructor
      · rintro ⟨segments, ⟨hentry, rfl⟩, hreaches⟩
        exact ⟨hentry, hreaches⟩
      · rintro ⟨hentry, hreaches⟩
        exact ⟨_, ⟨hentry, rfl⟩, hreaches⟩
  simp only [Router.trail, List.mem_flatMap, hbucket]

/-- The wildcard lookup by the first dot finds exactly the patterns that match. -/
theorem wildcardSuffix_eq_some_iff {host suffix : Bytes} :
    wildcardSuffix host = some suffix ↔
      ∃ separator, 0 < separator ∧ indexByte host dot = some separator ∧
        host.drop (separator + 1) = suffix := by
  unfold wildcardSuffix
  cases hindex : indexByte host dot with
  | none => simp
  | some separator =>
    by_cases hpos : 0 < separator
    · simp [hpos]
    · have hzero : separator = 0 := by omega
      simp [hzero]

theorem match_wildcard_iff {pattern : CompiledHostPattern} (hkind : pattern.kind = .hostPatternWildcard)
    (host : Bytes) : pattern.match host = true ↔ wildcardSuffix host = some pattern.value := by
  rw [wildcardSuffix_eq_some_iff]
  simp only [CompiledHostPattern.match, hkind]
  constructor
  · intro h
    split at h
    · contradiction
    rename_i hguard
    simp only [Bool.or_eq_true, decide_eq_true_eq, bne_iff_ne, ne_eq, not_or, not_not,
      not_le, not_lt] at hguard
    obtain ⟨⟨⟨hstart, _⟩, hdrop⟩, hdot⟩ := hguard
    -- the dot in front of the suffix is the first one
    obtain ⟨start, hstartEq⟩ : ∃ start : Nat,
        ((host.length : Int) - pattern.value.length) = start := by
      exact ⟨((host.length : Int) - pattern.value.length).toNat, by omega⟩
    rw [hstartEq, Int.toNat_natCast] at hdrop hdot h
    refine ⟨start - 1, by omega, ?_, ?_⟩
    · have hlt : start - 1 < host.length := by
        rw [List.getElem?_eq_some_iff] at hdot
        exact hdot.1
      refine List.findIdx?_eq_some_iff_getElem.mpr ⟨hlt, ?_, ?_⟩
      · rw [List.getElem?_eq_getElem hlt] at hdot
        simpa using hdot
      · intro earlier hearlier
        have hmem : host[earlier] ∈ host.take (start - 1) := by
          rw [List.mem_take_iff_getElem]
          exact ⟨earlier, by omega, rfl⟩
        simp only [containsAny, Bool.not_eq_true', List.any_eq_false] at h
        have hnot := h _ hmem
        simpa using hnot
    · rw [show start - 1 + 1 = start by omega]
      exact hdrop
  · rintro ⟨separator, hpos, hindex, hdrop⟩
    obtain ⟨hlt, hat, hbefore⟩ := List.findIdx?_eq_some_iff_getElem.mp hindex
    have hlength : pattern.value.length = host.length - (separator + 1) := by
      rw [← hdrop, List.length_drop]
    have hstart : ((host.length : Int) - pattern.value.length) = (separator + 1 : Nat) := by
      omega
    have hdot : host[separator + 1 - 1]? = some dot := by
      rw [Nat.add_sub_cancel, List.getElem?_eq_getElem hlt]
      exact congrArg some (beq_iff_eq.mp hat)
    simp only [hstart, Int.toNat_natCast, hdrop, hdot]
    rw [if_neg]
    · simp only [containsAny, Bool.not_eq_true', List.any_eq_false]
      intro byte hbyte
      rw [Nat.add_sub_cancel, List.mem_take_iff_getElem] at hbyte
      obtain ⟨earlier, hearlier, rfl⟩ := hbyte
      have hne := hbefore earlier (by omega)
      simpa using hne
    · simp only [Bool.or_eq_true, decide_eq_true_eq, bne_self_eq_false, Bool.false_eq_true,
        or_false, not_or]
      omega

/-- A host pattern matches exactly when its bucket is consulted. -/
theorem match_host_iff (pattern : CompiledHostPattern) (host : Bytes) :
    pattern.match host = true ↔ pattern.bucket ∈ hostBuckets host := by
  cases hkind : pattern.kind with
  | hostPatternExact =>
    simp only [CompiledHostPattern.match, CompiledHostPattern.bucket, hostBuckets, hkind,
      beq_iff_eq]
    simp [eq_comm]
  | hostPatternWildcard =>
    rw [match_wildcard_iff hkind]
    simp [CompiledHostPattern.bucket, hostBuckets, hkind]

end GGateway.Router
