import GGateway.Router.Reference

/-!
# What routing does not depend on

Two statements about a whole route list.  The order in which routes are declared
is irrelevant, even for requests with a malformed host or query.  Adding a route
that ranks below the winner keeps the winner, except that it may turn the answer
into an error: the matcher may come to a query predicate, or may have to look at
the host, that it did not need before.
-/

set_option linter.dupNamespace false

namespace GGateway.Router

open Text Library Model

/-! ## Declaration order -/

theorem judge_same (tables : UnicodeTables) {left right : Request} (h : left.Same right)
    (path : Bytes) : judge tables left path = judge tables right path := by
  funext value
  simp only [judge, evaluate_same tables h, h.method]

/-- Two routers that hold the same placements in some order have one trail. -/
theorem trail_eq_of_perm {left right : Router} {placed placed' : List (Bucket × Candidate)}
    (hleft : left.Holds Final placed) (hright : right.Holds Final placed')
    (hperm : placed.Perm placed')
    (hdistinct : ∀ bucket, (itemKeys (bucketItems bucket placed)).Nodup)
    (path : Bytes) (buckets : List Bucket) : left.trail path buckets = right.trail path buckets := by
  have hbucket : ∀ bucket, childTrail path (left.tree bucket) 1 =
      childTrail path (right.tree bucket) 1 := by
    intro bucket
    have hitems : (bucketItems bucket placed).Perm (bucketItems bucket placed') :=
      hperm.filterMap _
    cases htree : left.tree bucket with
    | some tree =>
      cases htree' : right.tree bucket with
      | some tree' =>
        exact trail_eq (hleft.tree_some bucket tree htree)
          (hright.tree_some bucket tree' htree') hitems (hdistinct bucket) 1
      | none =>
        have hhosted : bucket ≠ .hostless := by
          rintro rfl
          simp [Router.tree] at htree'
        rw [(hright.tree_none bucket hhosted).mp htree', List.perm_nil] at hitems
        rw [(hleft.tree_none bucket hhosted).mpr hitems] at htree
        contradiction
    | none =>
      have hhosted : bucket ≠ .hostless := by
        rintro rfl
        simp [Router.tree] at htree
      rw [(hleft.tree_none bucket hhosted).mp htree, List.nil_perm] at hitems
      rw [(hright.tree_none bucket hhosted).mpr hitems]
  simp only [Router.trail, hbucket]

/-- Declaration order, map iteration order and the instability of the sorts
change neither which lists are accepted nor what any request is answered. -/
theorem compile_match_of_perm {tables : UnicodeTables} {routes routes' : List RouteSpec}
    (hperm : routes.Perm routes') (choices choices' : CompileChoices) :
    ((∃ router, compile tables choices routes = .ok router) ↔
      ∃ router, compile tables choices' routes' = .ok router) ∧
    ∀ router router' : Router, compile tables choices routes = .ok router →
      compile tables choices' routes' = .ok router' →
      ∀ request request' : Request, request.Same request' →
        router.match tables request = router'.match tables request' := by
  refine ⟨?_, ?_⟩
  · rw [compile_accepts_iff, compile_accepts_iff]
    exact ⟨fun h => h.perm hperm choices', fun h => h.perm hperm.symm choices⟩
  · intro router router' hcompile hcompile' request request' hsame
    have hholds := compile_holds hcompile
    have hholds' := compile_holds hcompile'
    have hplaced := allPlacements_perm tables hperm
    have hids := (compile_accepts_iff.mp ⟨router, hcompile⟩).2.distinctIDs
    have hhosted : hosted (allPlacements tables routes) =
        hosted (allPlacements tables routes') := by
      rw [Bool.eq_iff_iff, hosted_eq_true_iff, hosted_eq_true_iff]
      simp only [hplaced.mem_iff]
    have hpath : request.matchedPath = request'.matchedPath := by
      simp only [Request.matchedPath, hsame.path]
    have hconsulted : consulted tables (hosted (allPlacements tables routes)) request =
        consulted tables (hosted (allPlacements tables routes')) request' := by
      simp only [consulted, hhosted, hsame.host]
    have htrail : ∀ buckets, router.trail request.matchedPath buckets =
        router'.trail request'.matchedPath buckets := by
      intro buckets
      rw [hpath]
      exact trail_eq_of_perm hholds hholds' hplaced (bucketItems_keys_nodup hids) _ _
    have hsearch : ∀ buckets,
        search tables request request.matchedPath .start
          (router.trail request.matchedPath buckets) =
        search tables request' request'.matchedPath .start
          (router'.trail request'.matchedPath buckets) := by
      intro buckets
      rw [search, search, htrail, judge_same tables hsame, hpath]
    rw [Router.match, Router.match, matchState_eq_search hholds, matchState_eq_search hholds',
      hconsulted]
    simp only [hsearch]

/-- Two routes in both orders, and a request whose query is malformed. -/
theorem compile_match_of_perm_swap :
    let route := fun (index : Int) (id path : Bytes) (queries : List Predicate) =>
      (⟨index, id, 0, ⟨[], path, [ascii "GET"], [], queries⟩⟩ : RouteSpec)
    let first := route 0 (ascii "a") (ascii "/a/b") []
    let second := route 1 (ascii "b") (ascii "/*") [⟨ascii "x", .exists, []⟩]
    let request : Request :=
      ⟨ascii "GET", ascii "example.com", ascii "/a/b", ascii "%zz", ⟨[], Assoc.keyed_nil⟩⟩
    ∃ router router' : Router, compile .asciiOnly .stable [first, second] = .ok router ∧
      compile .asciiOnly .stable [second, first] = .ok router' ∧
        router.match .asciiOnly request = router'.match .asciiOnly request := by
  intro route first second request
  obtain ⟨haccepts, hmatch⟩ :=
    compile_match_of_perm (List.Perm.swap second first []) .stable .stable
  obtain ⟨router, hcompile⟩ := Library.Checks.exists_of_isOk
    (by decide +kernel : (compile .asciiOnly .stable [first, second]).isOk = true)
  obtain ⟨router', hcompile'⟩ := haccepts.mp ⟨router, hcompile⟩
  have hsame : request.Same request := ⟨rfl, rfl, rfl, rfl, List.Perm.refl _⟩
  exact ⟨router, router', hcompile, hcompile', hmatch _ _ hcompile hcompile' _ _ hsame⟩

/-! ## Adding a route -/

/-- The patterns of this bucket apply to the host of the request. -/
def Bucket.Applies (tables : UnicodeTables) (request : Request) (bucket : Bucket) : Prop :=
  bucket = .hostless ∨ ∃ host, normalizeRequestHost tables request.host = .ok host ∧
    bucket ∈ hostBuckets host

section Extension

variable {tables : UnicodeTables} {request : Request} {placed : List (Bucket × Candidate)}
  {buckets : List Bucket}

theorem applies_of_consulted (h : consulted tables (hosted placed) request = .ok buckets)
    {bucket : Bucket} (hbucket : bucket ∈ buckets) : bucket.Applies tables request := by
  unfold consulted at h
  split at h
  · split at h
    · contradiction
    rename_i host hhost
    cases h
    rcases List.mem_append.mp hbucket with hin | hhostless
    · exact Or.inr ⟨host, hhost, hin⟩
    · exact Or.inl (List.mem_singleton.mp hhostless)
  · cases h
    exact Or.inl (List.mem_singleton.mp hbucket)

/-- A placement whose bucket applies is consulted. -/
theorem mem_consulted (h : consulted tables (hosted placed) request = .ok buckets)
    {bucket : Bucket} (happlies : bucket.Applies tables request) {value : Candidate}
    (hplaced : (bucket, value) ∈ placed) : bucket ∈ buckets := by
  unfold consulted at h
  split at h
  · rcases happlies with rfl | ⟨host, hhost, hin⟩
    · split at h
      · contradiction
      · cases h
        simp
    · rw [hhost] at h
      cases h
      exact List.mem_append_left _ hin
  · rename_i hnot
    cases h
    by_contra hne
    exact hnot (hosted_eq_true_iff.mpr ⟨_, hplaced, by simpa using hne⟩)

theorem mem_trail_iff_applies {router : Router} (hholds : router.Holds Final placed)
    (h : consulted tables (hosted placed) request = .ok buckets) (path : Bytes)
    (value : Candidate) :
    value ∈ router.trail path buckets ↔
      ∃ bucket, bucket.Applies tables request ∧ (bucket, value) ∈ placed ∧
        Reaches path value.path.segments 1 := by
  rw [mem_router_trail hholds]
  constructor
  · rintro ⟨bucket, hbucket, hrest⟩
    exact ⟨bucket, applies_of_consulted h hbucket, hrest⟩
  · rintro ⟨bucket, happlies, hplaced, hreaches⟩
    exact ⟨bucket, mem_consulted h happlies hplaced, hplaced, hreaches⟩

/-- Two buckets that apply to one request apply to one host. -/
theorem exists_host_of_applies {first second : Bucket} (hfirst : first.Applies tables request)
    (hsecond : second.Applies tables request) :
    ∃ host, first ∈ hostBuckets host ++ [.hostless] ∧ second ∈ hostBuckets host ++ [.hostless] := by
  rcases hfirst with rfl | ⟨host, hhost, hin⟩
  · rcases hsecond with rfl | ⟨host, _, hin⟩
    · exact ⟨[], by simp, by simp⟩
    · exact ⟨host, by simp, List.mem_append_left _ hin⟩
  · rcases hsecond with rfl | ⟨other, hother, hin'⟩
    · exact ⟨host, List.mem_append_left _ hin, by simp⟩
    · obtain rfl : host = other := Except.ok.inj (hhost.symm.trans hother)
      exact ⟨host, List.mem_append_left _ hin, List.mem_append_left _ hin'⟩

theorem kind_of_compilePredicate {kind : FieldKind} {predicate : Predicate}
    {compiled : CompiledPredicate} (h : compilePredicate kind predicate = .ok compiled) :
    compiled.kind = kind := by
  unfold compilePredicate at h
  split at h
  · contradiction
  split at h
  · contradiction
  cases kind with
  | fieldHeader =>
    dsimp only at h
    split at h
    · contradiction
    · rw [← Except.ok.inj h]
  | fieldQuery =>
    rw [← Except.ok.inj h]

theorem kind_of_mem_compilePredicateList {kind : FieldKind}
    {report : Nat → PredicateError → PredicatesError} {index : Nat} {predicates : List Predicate}
    {compiled : List CompiledPredicate}
    (h : compilePredicateList kind report index predicates = .ok compiled) :
    ∀ predicate ∈ compiled, predicate.kind = kind := by
  induction predicates generalizing index compiled with
  | nil =>
    obtain rfl : [] = compiled := by simpa [compilePredicateList] using h
    simp
  | cons predicate rest ih =>
    simp only [compilePredicateList] at h
    split at h
    · contradiction
    rename_i first hfirst
    split at h
    · contradiction
    rename_i others hothers
    cases h
    exact List.forall_mem_cons.mpr ⟨kind_of_compilePredicate hfirst, ih hothers⟩

/-- Only a route with query predicates has a compiled query predicate. -/
theorem queries_ne_nil {headers queries : List Predicate} {compiled : List CompiledPredicate}
    (h : compilePredicates headers queries = .ok compiled) {predicate : CompiledPredicate}
    (hmem : predicate ∈ compiled) (hkind : predicate.kind = .fieldQuery) : queries ≠ [] := by
  rintro rfl
  unfold compilePredicates at h
  split at h
  · contradiction
  rename_i compiledHeaders hheaders
  simp only [compilePredicateList, Except.ok.injEq, List.append_nil] at h
  subst h
  have hheader := kind_of_mem_compilePredicateList hheaders predicate hmem
  simp [hkind] at hheader

/-- A failed search met a query predicate and could not decode the query. -/
theorem search_error {routes : List RouteSpec} {router : Router}
    (hholds : router.Holds Final (allPlacements tables routes)) {path : Bytes} {cause : QueryError}
    (h : search tables request path .start (router.trail path buckets) = .error cause) :
    scanRawQuery request.rawQuery = .error cause ∧
      ∃ route ∈ routes, route.routeMatch.queries ≠ [] := by
  obtain ⟨value, hvalue, hjudge⟩ := Incumbent.exists_judge_of_run_error h
  have hevaluate : evaluate tables request value.predicates = .error cause := by
    unfold judge at hjudge
    split at hjudge
    · contradiction
    split at hjudge
    · rename_i first hfirst
      rw [hfirst, Except.error.inj hjudge]
    · contradiction
    · split at hjudge <;> contradiction
  obtain ⟨hscan, predicate, hpredicate, hkind⟩ := scanRawQuery_of_evaluate_error hevaluate
  refine ⟨hscan, ?_⟩
  obtain ⟨bucket, _, hplaced, _⟩ := (mem_router_trail hholds).mp hvalue
  obtain ⟨route, hroute, hentry⟩ := List.mem_flatMap.mp hplaced
  cases hparts : compileParts tables route with
  | error cause => simp [routePlacements, hparts] at hentry
  | ok parts =>
    obtain ⟨rfl, _⟩ := (mem_routePlacements_iff hparts).mp hentry
    exact ⟨route, hroute, queries_ne_nil (compileParts_eq_ok hparts).2.2.1 hpredicate hkind⟩

theorem compileHostList_eq_nil_iff {raw : List Bytes} {seen : List (HostPatternKind × Bytes)}
    {hosts : List CompiledHostPattern} (h : compileHostList tables raw seen = .ok hosts) :
    hosts = [] ↔ raw = [] := by
  cases raw with
  | nil =>
    obtain rfl : [] = hosts := by simpa [compileHostList] using h
    simp
  | cons pattern rest =>
    simp only [compileHostList] at h
    split at h
    · contradiction
    split at h
    · contradiction
    split at h
    · contradiction
    · cases h
      simp

/-- A list of valid routes needs the request host exactly when a route names
hosts. -/
theorem hosted_allPlacements {routes : List RouteSpec}
    (hvalid : ∀ route ∈ routes, ValidRoute tables route) :
    hosted (allPlacements tables routes) = true ↔
      ∃ route ∈ routes, route.routeMatch.hosts ≠ [] := by
  rw [hosted_eq_true_iff]
  have hroute : ∀ route ∈ routes,
      (∃ entry ∈ routePlacements tables route, entry.1 ≠ .hostless) ↔
        route.routeMatch.hosts ≠ [] := by
    intro route hmem
    obtain ⟨_, parts, hparts⟩ := hvalid route hmem
    obtain ⟨_, _, _, hhosts⟩ := compileParts_eq_ok hparts
    rw [ne_eq, ← compileHostList_eq_nil_iff hhosts]
    constructor
    · rintro ⟨⟨bucket, value⟩, hentry, hne⟩ hempty
      obtain ⟨_, ⟨_, hbucket⟩ | ⟨host, hhost, _⟩⟩ := (mem_routePlacements_iff hparts).mp hentry
      · exact hne hbucket
      · simp [hempty] at hhost
    · intro hne
      obtain ⟨host, hhost⟩ := List.exists_mem_of_ne_nil _ hne
      refine ⟨(host.bucket, parts.candidate route host.bucket.rank),
        (mem_routePlacements_iff hparts).mpr ⟨rfl, Or.inr ⟨host, hhost, rfl⟩⟩, ?_⟩
      unfold CompiledHostPattern.bucket
      split <;> simp
  constructor
  · rintro ⟨entry, hentry, hne⟩
    obtain ⟨route, hmem, hin⟩ := List.mem_flatMap.mp hentry
    exact ⟨route, hmem, (hroute route hmem).mp ⟨entry, hin, hne⟩⟩
  · rintro ⟨route, hmem, hhosts⟩
    obtain ⟨entry, hin, hne⟩ := (hroute route hmem).mpr hhosts
    exact ⟨entry, List.mem_flatMap.mpr ⟨route, hmem, hin⟩, hne⟩

end Extension

/-- Candidates that one request can reach on a compiled list have distinct keys. -/
theorem eq_of_key_eq_of_applies {tables : UnicodeTables} {routes : List RouteSpec}
    (hids : (routes.map RouteSpec.id).Nodup) {request : Request} {bucket bucket' : Bucket}
    {first second : Candidate} (happlies : bucket.Applies tables request)
    (happlies' : bucket'.Applies tables request)
    (hfirst : (bucket, first) ∈ allPlacements tables routes)
    (hsecond : (bucket', second) ∈ allPlacements tables routes)
    (hkey : first.key = second.key) : first = second := by
  obtain ⟨host, hhost, hhost'⟩ := exists_host_of_applies happlies happlies'
  exact eq_of_key_eq_of_consulted hids hhost hhost' hfirst hsecond hkey

section Lower

variable {tables : UnicodeTables} {routes routes' : List RouteSpec} {extra : RouteSpec}
  {router router' : Router} {request : Request}

theorem mem_allPlacements_of_perm_cons (hperm : routes'.Perm (extra :: routes))
    (entry : Bucket × Candidate) :
    entry ∈ allPlacements tables routes' ↔
      entry ∈ routePlacements tables extra ∨ entry ∈ allPlacements tables routes := by
  rw [(allPlacements_perm tables hperm).mem_iff]
  simp [allPlacements]

/-- Where both searches succeed, the longer list has the same winner. -/
theorem found_of_lower_route {buckets buckets' : List Bucket} {state state' : MatcherState}
    {winner : Winner} (hperm : routes'.Perm (extra :: routes))
    (hids : (routes.map RouteSpec.id).Nodup)
    (hholds : router.Holds Final (allPlacements tables routes))
    (hholds' : router'.Holds Final (allPlacements tables routes'))
    (hconsulted : consulted tables (hosted (allPlacements tables routes)) request = .ok buckets)
    (hconsulted' : consulted tables (hosted (allPlacements tables routes')) request = .ok buckets')
    (hsearch : search tables request request.matchedPath .start
      (router.trail request.matchedPath buckets) = .ok state)
    (hsearch' : search tables request request.matchedPath .start
      (router'.trail request.matchedPath buckets') = .ok state')
    (hfound : state.found = some winner)
    (hbelow : ∀ bucket value, (bucket, value) ∈ routePlacements tables extra →
      bucket.Applies tables request →
      (∃ other, judge tables request request.matchedPath value = .ok (.hit other)) →
        value.key < winner.best) :
    state'.found = some winner := by
  have hplaced : ∀ entry, entry ∈ allPlacements tables routes' ↔ _ :=
    mem_allPlacements_of_perm_cons hperm
  have htrail := mem_trail_iff_applies hholds hconsulted request.matchedPath
  have htrail' := mem_trail_iff_applies hholds' hconsulted' request.matchedPath
  have hsummary := Incumbent.Summary.start.run (fun _ _ => best_of_judge_hit) hsearch
  have hsummary' := Incumbent.Summary.start.run (fun _ _ => best_of_judge_hit) hsearch'
  rw [List.nil_append] at hsummary hsummary'
  refine hsummary.found_of_subset (fun _ _ => best_of_judge_hit) hsummary' ?_ hfound ?_ ?_
  · intro value hvalue
    obtain ⟨bucket, happlies, hentry, hreaches⟩ := (htrail value).mp hvalue
    exact (htrail' value).mpr ⟨bucket, happlies, (hplaced _).mpr (Or.inr hentry), hreaches⟩
  · intro first hfirst second hsecond hkey
    obtain ⟨bucket, happlies, hentry, _⟩ := (htrail first).mp hfirst
    obtain ⟨bucket', happlies', hentry', _⟩ := (htrail second).mp hsecond
    exact eq_of_key_eq_of_applies hids happlies happlies' hentry hentry' hkey
  · intro value hvalue other hhit
    obtain ⟨bucket, happlies, hentry, hreaches⟩ := (htrail' value).mp hvalue
    rcases (hplaced _).mp hentry with hextra | hold
    · exact Or.inr (hbelow bucket value hextra happlies ⟨other, hhit⟩)
    · exact Or.inl ((htrail value).mpr ⟨bucket, happlies, hold, hreaches⟩)

/-- A host error that only the longer list has is due to the new route alone. -/
theorem hosts_of_consulted_error {buckets : List Bucket} {cause : HostError}
    (hperm : routes'.Perm (extra :: routes))
    (hvalid : ∀ route ∈ routes', ValidRoute tables route)
    (hconsulted : consulted tables (hosted (allPlacements tables routes)) request = .ok buckets)
    (hconsulted' : consulted tables (hosted (allPlacements tables routes')) request =
      .error cause) :
    normalizeRequestHost tables request.host = .error cause ∧ extra.routeMatch.hosts ≠ [] ∧
      ∀ route ∈ routes, route.routeMatch.hosts = [] := by
  obtain ⟨hhosted', hnormalize⟩ := consulted_eq_error_iff.mp hconsulted'
  have hvalidOld : ∀ route ∈ routes, ValidRoute tables route := fun route hroute =>
    hvalid route (hperm.mem_iff.mpr (List.mem_cons_of_mem _ hroute))
  have hnone : ∀ route ∈ routes, route.routeMatch.hosts = [] := by
    intro route hroute
    by_contra hhosts
    have hhosted := (hosted_allPlacements hvalidOld).mpr ⟨route, hroute, hhosts⟩
    rw [consulted_eq_error_iff.mpr ⟨hhosted, hnormalize⟩] at hconsulted
    contradiction
  refine ⟨hnormalize, ?_, hnone⟩
  obtain ⟨route, hroute, hhosts⟩ := (hosted_allPlacements hvalid).mp hhosted'
  rcases List.mem_cons.mp (hperm.mem_iff.mp hroute) with rfl | hold
  · exact hhosts
  · exact absurd (hnone route hold) hhosts

/-- Adding a route none of whose matching candidates reaches the winner's key
keeps the answer.  What it can do is make the matcher fail: with a query error
when the query is malformed and some route has query predicates, or with a host
error when the host is malformed and the new route is the only one with hosts. -/
theorem match_of_lower_route {choices choices' : CompileChoices} {state : MatcherState}
    {winner : Winner} (hperm : routes'.Perm (extra :: routes))
    (hcompile : compile tables choices routes = .ok router)
    (hcompile' : compile tables choices' routes' = .ok router')
    (hstate : router.matchState tables request = .ok state)
    (hfound : state.found = some winner)
    (hbelow : ∀ bucket value, (bucket, value) ∈ routePlacements tables extra →
      bucket.Applies tables request →
      (∃ other, judge tables request request.matchedPath value = .ok (.hit other)) →
        value.key < winner.best) :
    router'.match tables request = router.match tables request ∨
    (∃ cause, router'.match tables request = .error (.query cause) ∧
      scanRawQuery request.rawQuery = .error cause ∧
      ∃ route ∈ routes', route.routeMatch.queries ≠ []) ∨
    (∃ cause, router'.match tables request = .error (.host cause) ∧
      normalizeRequestHost tables request.host = .error cause ∧
      extra.routeMatch.hosts ≠ [] ∧ ∀ route ∈ routes, route.routeMatch.hosts = []) := by
  have hholds := compile_holds hcompile
  have hholds' := compile_holds hcompile'
  have hids := (compile_accepts_iff.mp ⟨router, hcompile⟩).2.distinctIDs
  have hvalid := (compile_accepts_iff.mp ⟨router', hcompile'⟩).2.valid
  cases hconsulted : consulted tables (hosted (allPlacements tables routes)) request with
  | error cause =>
    rw [matchState_of_consulted_error hholds hconsulted] at hstate
    contradiction
  | ok buckets =>
    have hmatch := matchState_of_consulted hholds hconsulted
    cases hsearch : search tables request request.matchedPath .start
        (router.trail request.matchedPath buckets) with
    | error cause =>
      rw [hmatch, hsearch] at hstate
      contradiction
    | ok final =>
      obtain rfl : final = state := by
        rw [hmatch, hsearch] at hstate
        exact Except.ok.inj hstate
      cases hconsulted' : consulted tables (hosted (allPlacements tables routes')) request with
      | error cause =>
        right; right
        refine ⟨cause, ?_, hosts_of_consulted_error hperm hvalid hconsulted hconsulted'⟩
        rw [Router.match, matchState_of_consulted_error hholds' hconsulted']
        rfl
      | ok buckets' =>
        have hmatch' := matchState_of_consulted hholds' hconsulted'
        cases hsearch' : search tables request request.matchedPath .start
            (router'.trail request.matchedPath buckets') with
        | error cause =>
          right; left
          refine ⟨cause, ?_, search_error hholds' hsearch'⟩
          rw [Router.match, hmatch', hsearch']
          rfl
        | ok state' =>
          left
          have hfound' := found_of_lower_route hperm hids hholds hholds' hconsulted
            hconsulted' hsearch hsearch' hfound hbelow
          rw [Router.match, Router.match, hmatch', hmatch, hsearch', hsearch]
          change Except.ok state'.result = Except.ok final.result
          simp only [MatcherState.result, hfound, hfound']

end Lower

theorem exists_routers {tables : UnicodeTables} {choices : CompileChoices}
    {routes routes' : List RouteSpec} {request : Request} {answer answer' : Except MatchError Result}
    (h : (compile tables choices routes).toOption.map (·.match tables request) = some answer)
    (h' : (compile tables choices routes').toOption.map (·.match tables request) = some answer') :
    ∃ router router', compile tables choices routes = .ok router ∧
      compile tables choices routes' = .ok router' ∧
      router.match tables request = answer ∧ router'.match tables request = answer' := by
  cases hcompile : compile tables choices routes with
  | error cause => simp [hcompile, Except.toOption] at h
  | ok router =>
    cases hcompile' : compile tables choices routes' with
    | error cause => simp [hcompile', Except.toOption] at h'
    | ok router' =>
      simp only [hcompile, hcompile', Except.toOption, Option.map_some, Option.some.injEq] at h h'
      exact ⟨router, router', rfl, rfl, h, h'⟩

/-- A catch-all with a query predicate is added below the only route, and a
request with a malformed query is no longer routed; a route with a host is added
with a lower priority, and a request with a malformed host is no longer routed. -/
theorem match_of_lower_route_fails :
    let header : Header := ⟨[], Assoc.keyed_nil⟩
    let first : RouteSpec := ⟨0, ascii "w", 0, ⟨[], ascii "/a/b", [ascii "GET"], [], []⟩⟩
    let query : RouteSpec :=
      ⟨1, ascii "r", 0, ⟨[], ascii "/*", [ascii "GET"], [], [⟨ascii "x", .exists, []⟩]⟩⟩
    let host : RouteSpec :=
      ⟨1, ascii "r", -1, ⟨[ascii "example.com"], ascii "/a/b", [ascii "GET"], [], []⟩⟩
    let badQuery : Request :=
      ⟨ascii "GET", ascii "example.com", ascii "/a/b", ascii "%zz", header⟩
    let badHost : Request := ⟨ascii "GET", ascii "a:b:c", ascii "/a/b", [], header⟩
    (∀ entry ∈ routePlacements .asciiOnly query ++ routePlacements .asciiOnly host,
      ∀ other ∈ routePlacements .asciiOnly first, entry.2.key < other.2.key) ∧
    (∃ router router', compile .asciiOnly .stable [first] = .ok router ∧
      compile .asciiOnly .stable [first, query] = .ok router' ∧
      router.match .asciiOnly badQuery = .ok (.ofWinner 0 []) ∧
      router'.match .asciiOnly badQuery = .error (.query (.key (ascii "%zz")))) ∧
    ∃ router router', compile .asciiOnly .stable [first] = .ok router ∧
      compile .asciiOnly .stable [first, host] = .ok router' ∧
      router.match .asciiOnly badHost = .ok (.ofWinner 0 []) ∧
      router'.match .asciiOnly badHost = .error (.host (.malformed (ascii "a:b:c"))) := by
  intro header first query host badQuery badHost
  refine ⟨by decide +kernel, ?_, ?_⟩
  · exact exists_routers (by decide +kernel) (by decide +kernel)
  · exact exists_routers (by decide +kernel) (by decide +kernel)

/-- The catch-all of the example above, and a request whose query can be
decoded. -/
theorem match_of_lower_route_catchAll :
    let first : RouteSpec := ⟨0, ascii "w", 0, ⟨[], ascii "/a/b", [ascii "GET"], [], []⟩⟩
    let query : RouteSpec :=
      ⟨1, ascii "r", 0, ⟨[], ascii "/*", [ascii "GET"], [], [⟨ascii "x", .exists, []⟩]⟩⟩
    let request : Request :=
      ⟨ascii "GET", ascii "example.com", ascii "/a/b", ascii "x=1", ⟨[], Assoc.keyed_nil⟩⟩
    ∃ router router', compile .asciiOnly .stable [first] = .ok router ∧
      compile .asciiOnly .stable [first, query] = .ok router' ∧
      router.match .asciiOnly request = .ok (.ofWinner 0 []) ∧
      router'.match .asciiOnly request = router.match .asciiOnly request := by
  intro first query request
  obtain ⟨router, router', hcompile, hcompile', hmatch, _⟩ : ∃ router router',
      compile .asciiOnly .stable [first] = .ok router ∧
      compile .asciiOnly .stable [first, query] = .ok router' ∧
      router.match .asciiOnly request = .ok (.ofWinner 0 []) ∧
      router'.match .asciiOnly request = .ok (.ofWinner 0 []) :=
    exists_routers (by decide +kernel) (by decide +kernel)
  refine ⟨router, router', hcompile, hcompile', hmatch, ?_⟩
  have hcheck : ((compile .asciiOnly .stable [first]).toOption.bind fun router =>
      (router.matchState .asciiOnly request).toOption.bind Incumbent.State.found) =
        some ⟨⟨0, 0, 3, 2, 4, 0, ascii "w"⟩, 0, []⟩ := by
    decide +kernel
  rw [hcompile] at hcheck
  change (router.matchState .asciiOnly request).toOption.bind Incumbent.State.found = _ at hcheck
  cases hstate : router.matchState .asciiOnly request with
  | error cause => simp [hstate, Except.toOption] at hcheck
  | ok state =>
    have hfound : state.found = some ⟨⟨0, 0, 3, 2, 4, 0, ascii "w"⟩, 0, []⟩ := by
      simpa [hstate, Except.toOption] using hcheck
    have hkeys : ∀ entry ∈ routePlacements .asciiOnly query,
        entry.2.key < ⟨0, 0, 3, 2, 4, 0, ascii "w"⟩ := by decide +kernel
    rcases match_of_lower_route (List.Perm.swap query first []) hcompile hcompile' hstate hfound
      (fun bucket value hentry _ _ => hkeys (bucket, value) hentry) with
      hsame | ⟨cause, _, hscan, _⟩ | ⟨cause, _, hhost, _⟩
    · exact hsame
    · have hok : (scanRawQuery request.rawQuery).isOk = true := by decide +kernel
      simp [hscan, Except.isOk, Except.toBool] at hok
    · have hok : (normalizeRequestHost .asciiOnly request.host).isOk = true := by decide +kernel
      simp [hhost, Except.isOk, Except.toBool] at hok

end GGateway.Router
