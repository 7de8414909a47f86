import GGateway.Library.Checks
import GGateway.Router.Match
import Mathlib.Data.List.MinMax

/-!
# The plain linear scan

What the compiled router is for, stated without a trie: go through the routes,
keep those whose hosts, path and predicates match, and pick the greatest key
among those that accept the method.  This is the reference matcher of
`internal/router/reference_test.go`.
-/

set_option linter.dupNamespace false

namespace GGateway.Router

open Text Library Model

/-- A predicate holds on a request whose query has been decoded. -/
def CompiledPredicate.holds (tables : UnicodeTables) (request : Request) (query : QueryMap)
    (predicate : CompiledPredicate) : Bool :=
  PredicateOperator.matched predicate.operator predicate.values
    (match predicate.kind with
      | .fieldHeader => headerValues tables request.header predicate.name
      | .fieldQuery => query predicate.name)

/-- The best rank over the host patterns that match; a route without patterns
matches every host with rank `0`. -/
def scanHostRank (hosts : List CompiledHostPattern) (host : Bytes) : Option Nat :=
  if hosts = [] then some 0
  else ((hosts.filter fun pattern => pattern.match host).map fun pattern =>
    pattern.specificity.kindRank).max?

/-- A route that matches up to the method. -/
structure ScanMatch where
  key : PrecedenceKey
  routeIndex : Int
  params : List ParamSpan
  methods : List Bytes

def scanRoute (tables : UnicodeTables) (request : Request) (host : Bytes) (query : QueryMap)
    (route : RouteSpec) : Option ScanMatch := do
  let parts ← (compileParts tables route).toOption
  let hostRank ← scanHostRank parts.hosts host
  let params ← parts.path.match request.path
  if parts.predicates.all (·.holds tables request query) then
    some
      { key :=
          { priority := route.priority
            hostRank := hostRank
            pathKind := parts.path.specificity.kindRank
            staticSegments := parts.path.specificity.staticSegments
            patternBytes := parts.path.specificity.patternBytes
            predicateCount := route.routeMatch.headers.length + route.routeMatch.queries.length
            routeID := route.id }
        routeIndex := route.index
        params := params
        methods := route.routeMatch.methods.map (toUpper tables) }
  else none

def linearScan (tables : UnicodeTables) (routes : List RouteSpec) (request : Request)
    (host : Bytes) (query : QueryMap) : Result :=
  let matched := routes.filterMap (scanRoute tables request host query)
  let accepting := matched.filter fun scanned => scanned.methods.contains request.method
  match accepting.argmax ScanMatch.key with
  | some winner => .ofWinner winner.routeIndex winner.params
  | none =>
    if matched.isEmpty then .zero
    else .ofAllow (sortStrings (matched.flatMap ScanMatch.methods).dedup)

/-! ## Evaluation on a decoded query -/

variable {tables : UnicodeTables} {value : Candidate} {route : RouteSpec} {parts : RouteParts}

theorem evaluate_eq_all {request : Request} {query : QueryMap}
    (hscan : scanRawQuery request.rawQuery = .ok query) (predicates : List CompiledPredicate) :
    evaluate tables request predicates = .ok (predicates.all (·.holds tables request query)) := by
  induction predicates with
  | nil => rfl
  | cons predicate rest ih =>
    cases hkind : predicate.kind with
    | fieldHeader =>
      simp only [evaluate, CompiledPredicate.fieldValues, hkind, ih, List.all_cons,
        CompiledPredicate.holds]
      split
      · rename_i hmatched
        simp [hmatched]
      · rename_i hmatched
        simp [hmatched]
    | fieldQuery =>
      simp only [evaluate, CompiledPredicate.fieldValues, hkind, hscan, ih, List.all_cons,
        CompiledPredicate.holds]
      split
      · rename_i hmatched
        simp [hmatched]
      · rename_i hmatched
        simp [hmatched]

/-- The candidate matches up to the method, with these parameters. -/
def Candidate.Matches (tables : UnicodeTables) (request : Request) (path : Bytes)
    (query : QueryMap) (value : Candidate) (params : List ParamSpan) : Prop :=
  value.path.match path = some params ∧
    value.predicates.all (·.holds tables request query) = true

section Decoded

variable {tables : UnicodeTables} {request : Request} {path : Bytes} {query : QueryMap}

section Scanned

variable (hscan : scanRawQuery request.rawQuery = .ok query)

include hscan

theorem judge_of_matches
    {params : List ParamSpan} (h : value.Matches tables request path query params) :
    judge tables request path value =
      if value.methods.contains request.method then
        .ok (.hit ⟨value.key, value.routeIndex, params⟩)
      else .ok (.miss value.methods.values) := by
  obtain ⟨hpath, hpredicates⟩ := h
  simp only [judge, hpath, evaluate_eq_all hscan, hpredicates]

theorem judge_of_not_matches
    (h : ∀ params, ¬ value.Matches tables request path query params) :
    judge tables request path value = .ok .pass := by
  cases hpath : value.path.match path with
  | none => simp only [judge, hpath]
  | some params =>
    have hpredicates : value.predicates.all (·.holds tables request query) = false := by
      have hnot := h params
      simp only [Candidate.Matches, hpath, true_and, Bool.not_eq_true] at hnot
      exact hnot
    simp only [judge, hpath, evaluate_eq_all hscan, hpredicates]

theorem judge_eq_hit_iff {winner : Winner} :
    judge tables request path value = .ok (.hit winner) ↔
      ∃ params, value.Matches tables request path query params ∧
        value.methods.contains request.method = true ∧
        winner = ⟨value.key, value.routeIndex, params⟩ := by
  constructor
  · intro hjudge
    by_cases hmatches : ∃ params, value.Matches tables request path query params
    · obtain ⟨params, hparams⟩ := hmatches
      rw [judge_of_matches hscan hparams] at hjudge
      split at hjudge
      · rename_i hmethod
        have hwinner := Except.ok.inj hjudge
        simp only [Incumbent.Verdict.hit.injEq] at hwinner
        exact ⟨params, hparams, hmethod, hwinner.symm⟩
      · simp at hjudge
    · rw [judge_of_not_matches hscan (not_exists.mp hmatches)] at hjudge
      simp at hjudge
  · rintro ⟨params, hparams, hmethod, rfl⟩
    rw [judge_of_matches hscan hparams, if_pos hmethod]

theorem judge_eq_miss_iff
    {more : Finset Bytes} :
    judge tables request path value = .ok (.miss more) ↔
      (∃ params, value.Matches tables request path query params) ∧
        value.methods.contains request.method = false ∧ more = value.methods.values := by
  constructor
  · intro hjudge
    by_cases hmatches : ∃ params, value.Matches tables request path query params
    · obtain ⟨params, hparams⟩ := hmatches
      rw [judge_of_matches hscan hparams] at hjudge
      split at hjudge
      · simp at hjudge
      rename_i hmethod
      have hmore := Except.ok.inj hjudge
      simp only [Incumbent.Verdict.miss.injEq] at hmore
      exact ⟨⟨params, hparams⟩, by simpa using hmethod, hmore.symm⟩
    · rw [judge_of_not_matches hscan (not_exists.mp hmatches)] at hjudge
      simp at hjudge
  · rintro ⟨⟨params, hparams⟩, hmethod, rfl⟩
    rw [judge_of_matches hscan hparams, if_neg (by simp [hmethod])]

/-- On a decoded query the search does not fail. -/
theorem search_ok (values : List Candidate) :
    ∃ state, search tables request path .start values = .ok state := by
  cases hsearch : search tables request path .start values with
  | ok state => exact ⟨state, rfl⟩
  | error cause =>
    obtain ⟨value, _, hjudge⟩ := Incumbent.exists_judge_of_run_error hsearch
    by_cases hmatches : ∃ params, value.Matches tables request path query params
    · obtain ⟨params, hparams⟩ := hmatches
      rw [judge_of_matches hscan hparams] at hjudge
      split at hjudge <;> contradiction
    · rw [judge_of_not_matches hscan (not_exists.mp hmatches)] at hjudge
      contradiction

end Scanned

end Decoded

/-! ## Scanned routes and trail candidates -/

theorem compilePredicateList_length {kind : FieldKind}
    {report : Nat → PredicateError → PredicatesError} {index : Nat} {predicates : List Predicate}
    {compiled : List CompiledPredicate}
    (h : compilePredicateList kind report index predicates = .ok compiled) :
    compiled.length = predicates.length := by
  induction predicates generalizing index compiled with
  | nil =>
    obtain rfl : [] = compiled := by simpa [compilePredicateList] using h
    rfl
  | cons predicate rest ih =>
    simp only [compilePredicateList] at h
    split at h
    · contradiction
    split at h
    · contradiction
    rename_i others hothers
    cases h
    rw [List.length_cons, List.length_cons, ih hothers]

theorem compilePredicates_length {headers queries : List Predicate}
    {compiled : List CompiledPredicate} (h : compilePredicates headers queries = .ok compiled) :
    compiled.length = headers.length + queries.length := by
  unfold compilePredicates at h
  split at h
  · contradiction
  rename_i compiledHeaders hheaders
  split at h
  · contradiction
  rename_i compiledQueries hqueries
  cases h
  rw [List.length_append, compilePredicateList_length hheaders,
    compilePredicateList_length hqueries]

theorem candidate_key_le {low high : Nat} (h : low ≤ high) :
    (parts.candidate route low).key ≤ (parts.candidate route high).key := by
  rcases h.lt_or_eq with hlt | rfl
  · refine le_of_lt ((comparePrecedence_eq_gt _ _).mp ?_)
    have hcast : (low : Int) < high := by exact_mod_cast hlt
    simp [comparePrecedence, comparePairs, makePrecedenceKey, RouteParts.candidate, hcast]
  · exact le_refl _

def RouteParts.InBucket (parts : RouteParts) (bucket : Bucket) : Prop :=
  (parts.hosts = [] ∧ bucket = .hostless) ∨ ∃ host ∈ parts.hosts, host.bucket = bucket

theorem mem_routePlacements_iff (h : compileParts tables route = .ok parts) {bucket : Bucket} :
    (bucket, value) ∈ routePlacements tables route ↔
      value = parts.candidate route bucket.rank ∧ parts.InBucket bucket := by
  rw [mem_routePlacements h]
  simp [RouteParts.InBucket]

/-- The rank that the scan computes is the best among the buckets consulted. -/
theorem scanHostRank_spec (h : compileParts tables route = .ok parts) (host : Bytes) :
    (∀ rank, scanHostRank parts.hosts host = some rank →
      ∃ bucket ∈ hostBuckets host ++ [.hostless], parts.InBucket bucket ∧ bucket.rank = rank) ∧
    (∀ bucket ∈ hostBuckets host ++ [.hostless], parts.InBucket bucket →
      ∃ rank, scanHostRank parts.hosts host = some rank ∧ bucket.rank ≤ rank) := by
  obtain ⟨_, _, _, hhosts⟩ := compileParts_eq_ok h
  have hrank := fun pattern hpattern => ((compileHostList_spec hhosts).1 pattern hpattern).1
  unfold scanHostRank
  by_cases hempty : parts.hosts = []
  · simp only [hempty, if_true, Option.some.injEq]
    refine ⟨?_, ?_⟩
    · rintro rank rfl
      exact ⟨.hostless, by simp, Or.inl ⟨hempty, rfl⟩, rfl⟩
    · rintro bucket _ (⟨_, rfl⟩ | ⟨pattern, hpattern, _⟩)
      · exact ⟨0, rfl, le_refl _⟩
      · simp [hempty] at hpattern
  · simp only [hempty, if_false]
    refine ⟨?_, ?_⟩
    · intro rank hmax
      have hmem := List.max?_mem hmax
      obtain ⟨pattern, hpattern, rfl⟩ := List.mem_map.mp hmem
      obtain ⟨hin, hmatch⟩ := List.mem_filter.mp hpattern
      refine ⟨pattern.bucket, List.mem_append_left _ ((match_host_iff pattern host).mp hmatch),
        Or.inr ⟨pattern, hin, rfl⟩, (hrank pattern hin).symm⟩
    · rintro bucket hbucket (⟨hnone, _⟩ | ⟨pattern, hpattern, rfl⟩)
      · exact absurd hnone hempty
      · have hconsulted : pattern.bucket ∈ hostBuckets host := by
          rcases List.mem_append.mp hbucket with hin | hhostless
          · exact hin
          have hnot : pattern.bucket ≠ .hostless := by
            unfold CompiledHostPattern.bucket
            split <;> simp
          exact absurd (List.mem_singleton.mp hhostless) hnot
        have hmem : pattern.specificity.kindRank ∈
            (parts.hosts.filter fun pattern => pattern.match host).map fun pattern =>
              pattern.specificity.kindRank :=
          List.mem_map.mpr ⟨pattern, List.mem_filter.mpr
            ⟨hpattern, (match_host_iff pattern host).mpr hconsulted⟩, rfl⟩
        obtain ⟨rank, hmax⟩ := Option.isSome_iff_exists.mp
          (List.isSome_max?_of_mem hmem)
        refine ⟨rank, hmax, ?_⟩
        rw [← hrank pattern hpattern]
        exact (List.max?_eq_some_iff.mp hmax).2 _ hmem

/-- The buckets that matter for a normalizable host, whether or not the router
looked at the host at all. -/
theorem exists_consulted {request : Request} {host : Bytes}
    (hhost : normalizeRequestHost tables request.host = .ok host) {router : Router}
    {placed : List (Bucket × Candidate)} (h : router.Holds Final placed) (path : Bytes) :
    ∃ buckets, consulted tables (hosted placed) request = .ok buckets ∧
      ∀ value, value ∈ router.trail path buckets ↔
        ∃ bucket ∈ hostBuckets host ++ [.hostless], (bucket, value) ∈ placed ∧
          Reaches path value.path.segments 1 := by
  by_cases hhosted : hosted placed = true
  · refine ⟨hostBuckets host ++ [.hostless], by simp only [consulted, hhosted, if_true, hhost],
      fun value => mem_router_trail h⟩
  refine ⟨[.hostless], by simp only [consulted, hhosted, Bool.false_eq_true, if_false],
    fun value => ?_⟩
  rw [mem_router_trail h]
  constructor
  · rintro ⟨bucket, hbucket, hplaced⟩
    exact ⟨bucket, List.mem_append_right _ hbucket, hplaced⟩
  · rintro ⟨bucket, _, hplaced, hreaches⟩
    have hhostless : bucket = .hostless := by
      by_contra hne
      exact hhosted (hosted_eq_true_iff.mpr ⟨_, hplaced, hne⟩)
    exact ⟨bucket, by simp [hhostless], hplaced, hreaches⟩

theorem eq_of_rank_eq {host : Bytes} {first second : Bucket}
    (hfirst : first ∈ hostBuckets host ++ [.hostless])
    (hsecond : second ∈ hostBuckets host ++ [.hostless]) (hrank : first.rank = second.rank) :
    first = second := by
  cases hsuffix : wildcardSuffix host with
  | none =>
    simp only [hostBuckets, hsuffix, Option.map_none, Option.toList_none, List.cons_append,
      List.nil_append, List.mem_cons, List.not_mem_nil, or_false] at hfirst hsecond
    rcases hfirst with rfl | rfl <;> rcases hsecond with rfl | rfl <;>
      first | rfl | simp [Bucket.rank] at hrank
  | some suffix =>
    simp only [hostBuckets, hsuffix, Option.map_some, Option.toList_some, List.cons_append,
      List.nil_append, List.mem_cons, List.not_mem_nil, or_false] at hfirst hsecond
    rcases hfirst with rfl | rfl | rfl <;> rcases hsecond with rfl | rfl | rfl <;>
      first | rfl | simp [Bucket.rank] at hrank

/-- Candidates that one request can reach are told apart by their keys. -/
theorem eq_of_key_eq_of_consulted {routes : List RouteSpec}
    (hids : (routes.map RouteSpec.id).Nodup) {host : Bytes} {bucket bucket' : Bucket}
    {first second : Candidate} (hbucket : bucket ∈ hostBuckets host ++ [.hostless])
    (hbucket' : bucket' ∈ hostBuckets host ++ [.hostless])
    (hfirst : (bucket, first) ∈ allPlacements tables routes)
    (hsecond : (bucket', second) ∈ allPlacements tables routes) (hkey : first.key = second.key) :
    first = second := by
  have hrankOf : ∀ {bucket value}, (bucket, value) ∈ allPlacements tables routes →
      value.hostRank = bucket.rank := by
    intro bucket value hplaced
    obtain ⟨route, _, hroute⟩ := List.mem_flatMap.mp hplaced
    exact (routeID_of_mem_routePlacements hroute).2
  have hrank : bucket.rank = bucket'.rank := by
    rw [← hrankOf hfirst, ← hrankOf hsecond]
    exact congrArg PrecedenceKey.hostRank hkey
  obtain rfl := eq_of_rank_eq hbucket hbucket' hrank
  exact eq_of_key_eq hids hfirst hsecond hkey

section Scan

variable {tables : UnicodeTables} {routes : List RouteSpec} {request : Request} {host : Bytes}
  {query : QueryMap}

/-- What a scanned route and a candidate have in common. -/
structure ScanMatch.Agrees (scanned : ScanMatch) (value : Candidate) : Prop where
  routeIndex : value.routeIndex = scanned.routeIndex
  methods : ∀ method, value.methods.contains method = true ↔ method ∈ scanned.methods
  nonempty : scanned.methods ≠ []

theorem agrees_of_compileMethods {hostRank : Nat} {scanned : ScanMatch}
    (h : compileMethods tables route.routeMatch.methods = .ok parts.methods)
    (hindex : scanned.routeIndex = route.index)
    (hmethods : scanned.methods = route.routeMatch.methods.map (toUpper tables)) :
    scanned.Agrees (parts.candidate route hostRank) := by
  refine ⟨hindex.symm, ?_, ?_⟩
  · intro method
    rw [hmethods]
    exact compileMethods_contains h method
  · rw [hmethods, ne_eq, List.map_eq_nil_iff]
    intro hempty
    simp [compileMethods, hempty] at h

/-- A scanned route has a candidate of its own key among those that can be
reached. -/
theorem exists_candidate_of_scan {scanned : ScanMatch} (hroute : route ∈ routes)
    (h : scanRoute tables request host query route = some scanned) :
    ∃ bucket ∈ hostBuckets host ++ [.hostless], ∃ value,
      (bucket, value) ∈ allPlacements tables routes ∧
      value.Matches tables request request.path query scanned.params ∧
      value.key = scanned.key ∧ scanned.Agrees value := by
  unfold scanRoute at h
  cases hparts : compileParts tables route with
  | error cause => simp [hparts, Except.toOption] at h
  | ok parts =>
    obtain ⟨_, hmethods, hpredicates, _⟩ := compileParts_eq_ok hparts
    simp only [hparts, Except.toOption, Option.bind_eq_bind, Option.bind_some,
      Option.bind_eq_some_iff] at h
    obtain ⟨rank, hrank, params, hparams, hscanned⟩ := h
    split at hscanned
    · rename_i hholds
      cases hscanned
      obtain ⟨bucket, hbucket, hin, rfl⟩ := (scanHostRank_spec hparts host).1 rank hrank
      refine ⟨bucket, hbucket, parts.candidate route bucket.rank, ?_, ⟨hparams, hholds⟩, ?_, ?_⟩
      · exact List.mem_flatMap.mpr ⟨route, hroute,
          (mem_routePlacements_iff hparts).mpr ⟨rfl, hin⟩⟩
      · simp only [Candidate.key, makePrecedenceKey, RouteParts.candidate,
          compilePredicates_length hpredicates]
      · exact agrees_of_compileMethods hmethods rfl rfl
    · contradiction

/-- A reachable candidate that matches belongs to a scanned route whose key is
at least as great. -/
theorem exists_scan_of_candidate {bucket : Bucket} {params : List ParamSpan}
    (hbucket : bucket ∈ hostBuckets host ++ [.hostless])
    (hplaced : (bucket, value) ∈ allPlacements tables routes)
    (hmatches : value.Matches tables request request.path query params) :
    ∃ scanned ∈ routes.filterMap (scanRoute tables request host query),
      value.key ≤ scanned.key ∧ scanned.Agrees value := by
  obtain ⟨route, hroute, hentry⟩ := List.mem_flatMap.mp hplaced
  cases hparts : compileParts tables route with
  | error cause => simp [routePlacements, hparts] at hentry
  | ok parts =>
    obtain ⟨_, hmethods, hpredicates, _⟩ := compileParts_eq_ok hparts
    obtain ⟨rfl, hin⟩ := (mem_routePlacements_iff hparts).mp hentry
    obtain ⟨rank, hrank, hle⟩ := (scanHostRank_spec hparts host).2 bucket hbucket hin
    obtain ⟨hpath, hholds⟩ := hmatches
    have hpath' : parts.path.match request.path = some params := hpath
    have hholds' : parts.predicates.all (·.holds tables request query) = true := hholds
    let scanned : ScanMatch :=
      { key := (parts.candidate route rank).key
        routeIndex := route.index
        params := params
        methods := route.routeMatch.methods.map (toUpper tables) }
    have hscanned : scanRoute tables request host query route = some scanned := by
      simp only [scanRoute, hparts, Except.toOption, Option.bind_eq_bind, Option.bind_some,
        hrank, hpath', hholds', if_true, scanned, Candidate.key, makePrecedenceKey,
        RouteParts.candidate, compilePredicates_length hpredicates]
    refine ⟨scanned, List.mem_filterMap.mpr ⟨route, hroute, hscanned⟩, candidate_key_le hle, ?_⟩
    exact agrees_of_compileMethods hmethods rfl rfl

end Scan

/-! ## The compiled router is the linear scan -/

theorem sort_eq_sortStrings {gathered : Finset Bytes} {values : List Bytes}
    (hmem : ∀ value, value ∈ gathered ↔ value ∈ values) :
    gathered.sort (· ≤ ·) = sortStrings values.dedup := by
  have hperm : (gathered.sort (· ≤ ·)).Perm (sortStrings values.dedup) := by
    have hnodup : (sortStrings values.dedup).Nodup :=
      (List.mergeSort_perm _ _).nodup_iff.mpr values.nodup_dedup
    refine (List.perm_ext_iff_of_nodup (Finset.sort_nodup _ _) hnodup).mpr fun value => ?_
    rw [Finset.mem_sort, hmem, sortStrings, List.mem_mergeSort, List.mem_dedup]
  refine hperm.eq_of_pairwise ?_ (Finset.pairwise_sort _ _) ?_
  · intro first second _ _ hle hge
    exact le_antisymm hle hge
  · exact pairwise_mergeSort_of_total (· ≤ ·) (fun _ _ _ => le_trans) le_total _

section Assembly

variable {tables : UnicodeTables} {routes : List RouteSpec} {request : Request} {host : Bytes}
  {query : QueryMap} {state : MatcherState} {passed : List Candidate}

/-- The candidates passed by the search are the reachable ones. -/
def Passed (tables : UnicodeTables) (routes : List RouteSpec) (request : Request) (host : Bytes)
    (passed : List Candidate) : Prop :=
  ∀ value, value ∈ passed ↔ ∃ bucket ∈ hostBuckets host ++ [.hostless],
    (bucket, value) ∈ allPlacements tables routes ∧ Reaches request.path value.path.segments 1

/-- The search and the scan agree on a winner: the scanned route with the
greatest key has a candidate of that key, which the search cannot have missed. -/
theorem linearScan_of_found (hids : (routes.map RouteSpec.id).Nodup)
    (hquery : scanRawQuery request.rawQuery = .ok query)
    (hpassed : Passed tables routes request host passed)
    (hsummary : Incumbent.Summary Winner.best Candidate.key (judge tables request request.path)
      state passed) {winner : Winner} (hfound : state.found = some winner) :
    linearScan tables routes request host query = .ofWinner winner.routeIndex winner.params := by
  obtain ⟨value, hvalue, hjudge⟩ := hsummary.hit winner hfound
  obtain ⟨bucket, hbucket, hplaced, _⟩ := (hpassed value).mp hvalue
  obtain ⟨params, hmatches, hmethod, rfl⟩ := (judge_eq_hit_iff hquery).mp hjudge
  -- the winner's route is scanned with a key at least as great, and accepts the method
  obtain ⟨own, hown, hownKey, hownAgrees⟩ := exists_scan_of_candidate hbucket hplaced hmatches
  have hownAccepts : own ∈ (routes.filterMap (scanRoute tables request host query)).filter
      fun scanned => scanned.methods.contains request.method := by
    refine List.mem_filter.mpr ⟨hown, ?_⟩
    simpa using (hownAgrees.methods request.method).mp hmethod
  unfold linearScan
  cases hgreatest : ((routes.filterMap (scanRoute tables request host query)).filter
      fun scanned => scanned.methods.contains request.method).argmax ScanMatch.key with
  | none =>
    rw [List.argmax_eq_none.mp hgreatest] at hownAccepts
    simp at hownAccepts
  | some greatest =>
    have hle := List.le_of_mem_argmax hownAccepts hgreatest
    obtain ⟨hscanned, haccepts⟩ := List.mem_filter.mp (List.argmax_mem hgreatest)
    obtain ⟨route, hroute, hscan⟩ := List.mem_filterMap.mp hscanned
    obtain ⟨other, hother, rival, hrivalPlaced, hrivalMatches, hrivalKey, hrivalAgrees⟩ :=
      exists_candidate_of_scan hroute hscan
    have hrivalHit : judge tables request request.path rival =
        .ok (.hit ⟨rival.key, rival.routeIndex, greatest.params⟩) := by
      refine (judge_eq_hit_iff hquery).mpr ⟨_, hrivalMatches, ?_, rfl⟩
      exact (hrivalAgrees.methods request.method).mpr (by simpa using haccepts)
    have hrivalPassed : rival ∈ passed :=
      (hpassed rival).mpr ⟨other, hother, hrivalPlaced, reaches_of_match hrivalMatches.1⟩
    -- a hit above the incumbent would contradict the summary
    have hnotAbove : ¬ value.key < rival.key := by
      intro hlt
      rcases hsummary.above _ hfound rival hrivalPassed hlt with hpass | ⟨more, hmiss⟩
      · rw [hrivalHit] at hpass
        simp at hpass
      · rw [hrivalHit] at hmiss
        simp at hmiss
    have hkey : value.key = rival.key := by
      refine le_antisymm ?_ (not_lt.mp hnotAbove)
      rw [hrivalKey]
      exact hownKey.trans hle
    obtain rfl := eq_of_key_eq_of_consulted hids hbucket hother hplaced hrivalPlaced hkey
    have hparams : params = greatest.params :=
      Option.some.inj (hmatches.1.symm.trans hrivalMatches.1)
    simp only [hgreatest, hrivalAgrees.routeIndex, hparams]

/-- Without a winner, the search has examined every reachable candidate, and
what it gathered is the union of the methods of all scanned routes. -/
theorem linearScan_of_not_found (hquery : scanRawQuery request.rawQuery = .ok query)
    (hpassed : Passed tables routes request host passed)
    (hsummary : Incumbent.Summary Winner.best Candidate.key (judge tables request request.path)
      state passed) (hfound : state.found = none) :
    linearScan tables routes request host query =
      if state.gathered = ∅ then .zero else .ofAllow (state.gathered.sort (· ≤ ·)) := by
  have hmiss : ∀ scanned ∈ routes.filterMap (scanRoute tables request host query),
      ∃ value ∈ passed, scanned.Agrees value ∧ value.methods.contains request.method = false ∧
        judge tables request request.path value = .ok (.miss value.methods.values) := by
    intro scanned hscanned
    obtain ⟨route, hroute, hscan⟩ := List.mem_filterMap.mp hscanned
    obtain ⟨bucket, hbucket, value, hplaced, hmatches, _, hagrees⟩ :=
      exists_candidate_of_scan hroute hscan
    have hvalue : value ∈ passed :=
      (hpassed value).mpr ⟨bucket, hbucket, hplaced, reaches_of_match hmatches.1⟩
    have hmethod : value.methods.contains request.method = false := by
      by_contra hcontains
      have hhit := (judge_eq_hit_iff hquery).mpr ⟨_, hmatches, by simpa using hcontains, rfl⟩
      rcases hsummary.clean hfound value hvalue with hpass | ⟨more, hmore⟩
      · rw [hhit] at hpass
        simp at hpass
      · rw [hhit] at hmore
        simp at hmore
    exact ⟨value, hvalue, hagrees, hmethod,
      (judge_eq_miss_iff hquery).mpr ⟨⟨_, hmatches⟩, hmethod, rfl⟩⟩
  have haccepting : (routes.filterMap (scanRoute tables request host query)).filter
      (fun scanned => scanned.methods.contains request.method) = [] := by
    rw [List.filter_eq_nil_iff]
    intro scanned hscanned hcontains
    obtain ⟨value, _, hagrees, hmethod, _⟩ := hmiss scanned hscanned
    have hin := (hagrees.methods request.method).mpr (by simpa using hcontains)
    rw [hmethod] at hin
    contradiction
  have hgathered : ∀ method, method ∈ state.gathered ↔
      method ∈ (routes.filterMap (scanRoute tables request host query)).flatMap
        ScanMatch.methods := by
    intro method
    rw [hsummary.gathered hfound, List.mem_flatMap]
    constructor
    · rintro ⟨value, hvalue, more, hjudge, hmethod⟩
      obtain ⟨⟨params, hmatches⟩, _, rfl⟩ := (judge_eq_miss_iff hquery).mp hjudge
      obtain ⟨bucket, hbucket, hplaced, _⟩ := (hpassed value).mp hvalue
      obtain ⟨scanned, hscanned, _, hagrees⟩ := exists_scan_of_candidate hbucket hplaced hmatches
      refine ⟨scanned, hscanned, (hagrees.methods method).mp ?_⟩
      exact (MethodSet.mem_values _ _).mp hmethod
    · rintro ⟨scanned, hscanned, hmethod⟩
      obtain ⟨value, hvalue, hagrees, _, hjudge⟩ := hmiss scanned hscanned
      exact ⟨value, hvalue, _, hjudge,
        (MethodSet.mem_values _ _).mpr ((hagrees.methods method).mpr hmethod)⟩
  simp only [linearScan, haccepting, List.argmax_nil]
  by_cases hempty : routes.filterMap (scanRoute tables request host query) = []
  · have hnone : state.gathered = ∅ := by
      rw [Finset.eq_empty_iff_forall_notMem]
      intro method hmethod
      rw [hgathered, hempty] at hmethod
      simp at hmethod
    simp only [hempty, List.isEmpty_nil, if_true, hnone]
  · have hsome : state.gathered ≠ ∅ := by
      obtain ⟨scanned, hscanned⟩ := List.exists_mem_of_ne_nil _ hempty
      obtain ⟨value, _, hagrees, _⟩ := hmiss scanned hscanned
      obtain ⟨method, hmethod⟩ := List.exists_mem_of_ne_nil _ hagrees.nonempty
      exact Finset.ne_empty_of_mem
        ((hgathered method).mpr (List.mem_flatMap.mpr ⟨scanned, hscanned, hmethod⟩))
    simp only [List.isEmpty_iff, hempty, if_false, hsome, sort_eq_sortStrings hgathered]

end Assembly

/-- On every request with an absolute path, a decodable query and a normalizable
host, the compiled router returns what the linear scan over its routes returns. -/
theorem match_eq_linearScan {tables : UnicodeTables} {choices : CompileChoices}
    {routes : List RouteSpec} {router : Router} {request : Request} {host : Bytes}
    {query : QueryMap} (hcompile : compile tables choices routes = .ok router)
    (hpath : hasPrefix request.path [slash] = true)
    (hquery : scanRawQuery request.rawQuery = .ok query)
    (hhost : normalizeRequestHost tables request.host = .ok host) :
    router.match tables request = .ok (linearScan tables routes request host query) := by
  have hholds := compile_holds hcompile
  have hids := (compile_accepts_iff.mp ⟨router, hcompile⟩).2.distinctIDs
  have hmatchedPath : request.matchedPath = request.path := by
    have hne : request.path ≠ [] := by
      intro hempty
      simp [hempty, hasPrefix] at hpath
    rw [Request.matchedPath, if_neg hne]
  obtain ⟨buckets, hconsulted, htrail⟩ := exists_consulted hhost hholds request.path
  obtain ⟨state, hstate⟩ : ∃ state, search tables request request.path .start
      (router.trail request.path buckets) = .ok state := search_ok hquery _
  have hsummary := Incumbent.Summary.start.run (fun _ _ => best_of_judge_hit) hstate
  rw [List.nil_append] at hsummary
  have hresult : router.match tables request = .ok state.result := by
    rw [Router.match, matchState_of_consulted hholds hconsulted, hmatchedPath, hstate]
    rfl
  rw [hresult]
  cases hfound : state.found with
  | some winner =>
    rw [linearScan_of_found hids hquery htrail hsummary hfound]
    simp only [MatcherState.result, hfound]
  | none =>
    rw [linearScan_of_not_found hquery htrail hsummary hfound]
    simp only [MatcherState.result, hfound]

/-- A request for `/a/7` on a two-route list: the parameter route wins over the
catch-all and captures the last segment. -/
theorem match_eq_linearScan_two_routes :
    let route := fun (index : Int) (id path : Bytes) =>
      (⟨index, id, 0, ⟨[ascii "*.example.com"], path, [ascii "get"], [], []⟩⟩ : RouteSpec)
    let routes := [route 4 (ascii "p") (ascii "/a/\x7bid\x7d"),
      route 5 (ascii "q") (ascii "/\x7b*all\x7d")]
    let request : Request :=
      ⟨ascii "GET", ascii "API.example.com:80", ascii "/a/7", [], ⟨[], Assoc.keyed_nil⟩⟩
    ∃ router, compile .asciiOnly .stable routes = .ok router ∧
      router.match .asciiOnly request = .ok (.ofWinner 4 [⟨ascii "id", 3, 4⟩]) := by
  intro route routes request
  have hok : (compile .asciiOnly .stable routes).isOk = true := by decide +kernel
  obtain ⟨router, hcompile⟩ := Library.Checks.exists_of_isOk hok
  refine ⟨router, hcompile, ?_⟩
  have hscan : linearScan .asciiOnly routes request (ascii "api.example.com") (fun _ => none) =
      .ofWinner 4 [⟨ascii "id", 3, 4⟩] := by decide +kernel
  rw [← hscan]
  exact match_eq_linearScan hcompile (by decide) rfl (by decide +kernel)

end GGateway.Router
