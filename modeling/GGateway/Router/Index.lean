import GGateway.Router.Compile

/-!
# What a compiled router holds

A compiled router is described by the list of its placements, one for each host
pattern of each route: every bucket's trie represents the placements of that
bucket.  The description does not mention insertion order, map iteration or
sorting, and an accepted list gives distinct keys to all placements of a bucket.
-/

set_option linter.dupNamespace false

namespace GGateway.Router

open Text Library Model

def Router.tree (router : Router) : Bucket → Option PathNode
  | .exact host => router.exactHosts.lookup host
  | .wildcard suffix => router.wildcardHosts.lookup suffix
  | .hostless => some router.hostless

def bucketItems (bucket : Bucket) (placed : List (Bucket × Candidate)) : List Item :=
  placed.filterMap fun entry =>
    if entry.1 = bucket then some (entry.2.path.segments, entry.2) else none

variable {placed : List (Bucket × Candidate)} {router : Router} {tables : UnicodeTables}
  {routes : List RouteSpec}

theorem mem_bucketItems {bucket : Bucket} {segments : List PathSegment} {value : Candidate} :
    (segments, value) ∈ bucketItems bucket placed ↔
      (bucket, value) ∈ placed ∧ segments = value.path.segments := by
  rw [bucketItems, List.mem_filterMap]
  constructor
  · rintro ⟨⟨stored, candidate⟩, hentry, hitem⟩
    by_cases hbucket : stored = bucket
    · subst hbucket
      simp only [if_true, Option.some.injEq, Prod.mk.injEq] at hitem
      obtain ⟨rfl, rfl⟩ := hitem
      exact ⟨hentry, rfl⟩
    · simp [hbucket] at hitem
  · rintro ⟨hentry, rfl⟩
    exact ⟨_, hentry, by simp⟩

/-- Every bucket's trie represents the placements of that bucket. -/
structure Router.Holds (Local : PathNode → List Item → Prop) (router : Router)
    (placed : List (Bucket × Candidate)) : Prop where
  tree_some : ∀ bucket tree, router.tree bucket = some tree →
    Represents Local tree (bucketItems bucket placed)
  tree_none : ∀ bucket, bucket ≠ .hostless →
    (router.tree bucket = none ↔ bucketItems bucket placed = [])

theorem holds_empty : Router.empty.Holds Raw [] := by
  refine ⟨?_, ?_⟩
  · intro bucket tree htree
    cases bucket with
    | exact host => simp [Router.tree, Router.empty] at htree
    | wildcard suffix => simp [Router.tree, Router.empty] at htree
    | hostless =>
      cases htree
      exact represents_empty
  · intro bucket hbucket
    cases bucket with
    | exact host => exact iff_of_true rfl rfl
    | wildcard suffix => exact iff_of_true rfl rfl
    | hostless => contradiction

theorem Router.tree_insert_self (router : Router) (bucket : Bucket) (value : Candidate) :
    (router.insert (bucket, value)).tree bucket =
      some (insertCandidate ((router.tree bucket).getD .empty) value) := by
  cases bucket with
  | exact host => exact Assoc.lookup_upsert_self _ _ _
  | wildcard suffix => exact Assoc.lookup_upsert_self _ _ _
  | hostless => rfl

theorem Router.tree_insert_of_ne (router : Router) {bucket other : Bucket} (value : Candidate)
    (hne : other ≠ bucket) : (router.insert (bucket, value)).tree other = router.tree other := by
  cases bucket with
  | exact host =>
    cases other with
    | exact wanted =>
      have hhost : wanted ≠ host := fun h => hne (h ▸ rfl)
      exact Assoc.lookup_upsert_of_ne hhost _ _
    | wildcard wanted => rfl
    | hostless => rfl
  | wildcard suffix =>
    cases other with
    | exact wanted => rfl
    | wildcard wanted =>
      have hsuffix : wanted ≠ suffix := fun h => hne (h ▸ rfl)
      exact Assoc.lookup_upsert_of_ne hsuffix _ _
    | hostless => rfl
  | hostless =>
    cases other with
    | exact wanted => rfl
    | wildcard wanted => rfl
    | hostless => contradiction

theorem Router.Holds.getD_tree (h : router.Holds Raw placed) (bucket : Bucket) :
    Represents Raw ((router.tree bucket).getD .empty) (bucketItems bucket placed) := by
  cases htree : router.tree bucket with
  | some tree => exact h.tree_some bucket tree htree
  | none =>
    have hbucket : bucket ≠ .hostless := by
      rintro rfl
      simp [Router.tree] at htree
    rw [(h.tree_none bucket hbucket).mp htree]
    exact represents_empty

theorem Router.Holds.insert (h : router.Holds Raw placed) (entry : Bucket × Candidate) :
    (router.insert entry).Holds Raw (placed ++ [entry]) := by
  obtain ⟨bucket, value⟩ := entry
  have hself : bucketItems bucket (placed ++ [(bucket, value)]) =
      bucketItems bucket placed ++ [(value.path.segments, value)] := by
    simp [bucketItems]
  have hother : ∀ other, other ≠ bucket →
      bucketItems other (placed ++ [(bucket, value)]) = bucketItems other placed := by
    intro other hne
    simp [bucketItems, hne.symm]
  refine ⟨?_, ?_⟩
  · intro other tree htree
    by_cases hne : other = bucket
    · subst hne
      rw [Router.tree_insert_self] at htree
      cases htree
      rw [hself]
      exact (h.getD_tree other).insertAlong
    · rw [Router.tree_insert_of_ne router value hne] at htree
      rw [hother other hne]
      exact h.tree_some other tree htree
  · intro other hhosted
    by_cases hne : other = bucket
    · subst hne
      rw [Router.tree_insert_self, hself]
      simp
    · rw [Router.tree_insert_of_ne router value hne, hother other hne]
      exact h.tree_none other hhosted

theorem Router.Holds.foldl_insert (h : router.Holds Raw placed)
    (entries : List (Bucket × Candidate)) :
    (entries.foldl Router.insert router).Holds Raw (placed ++ entries) := by
  induction entries generalizing router placed with
  | nil => simpa using h
  | cons entry rest ih =>
    have hrest := ih (h.insert entry)
    simpa using hrest

theorem Router.tree_finalize (choices : Choices) (router : Router) (bucket : Bucket) :
    (router.finalize choices).tree bucket = (router.tree bucket).map (finalizeNode choices) := by
  cases bucket with
  | exact host => exact finalizeStatic_lookup choices _ _
  | wildcard suffix => exact finalizeStatic_lookup choices _ _
  | hostless => rfl

theorem Router.Holds.finalize (choices : Choices) (h : router.Holds Raw placed) :
    (router.finalize choices).Holds Final placed := by
  refine ⟨?_, ?_⟩
  · intro bucket tree htree
    rw [Router.tree_finalize] at htree
    obtain ⟨original, horiginal, rfl⟩ := Option.map_eq_some_iff.mp htree
    exact (h.tree_some bucket original horiginal).finalizeNode choices
  · intro bucket hbucket
    rw [Router.tree_finalize, Option.map_eq_none_iff]
    exact h.tree_none bucket hbucket

def allPlacements (tables : UnicodeTables) (routes : List RouteSpec) : List (Bucket × Candidate) :=
  routes.flatMap (routePlacements tables)

/-- A compiled router holds exactly the placements of its routes. -/
theorem compile_holds {choices : CompileChoices} (h : compile tables choices routes = .ok router) :
    router.Holds Final (allPlacements tables routes) := by
  unfold compile at h
  split at h
  · contradiction
  cases hroutes : compileRoutes tables choices 0 routes ⟨.empty, [], []⟩ with
  | error cause => simp [hroutes] at h
  | ok state =>
    obtain rfl : state.router.finalize choices.toChoices = router := by
      simpa [hroutes] using h
    rw [compileRoutes_router hroutes]
    have hraw := holds_empty.foldl_insert (allPlacements tables routes)
    exact hraw.finalize choices.toChoices

/-- The host maps are empty exactly when no route has hosts. -/
theorem Router.Holds.hosted_iff {Local : PathNode → List Item → Prop}
    (h : router.Holds Local placed) :
    (router.exactHosts ≠ [] ∨ router.wildcardHosts ≠ []) ↔
      ∃ entry ∈ placed, entry.1 ≠ .hostless := by
  have hpresent : ∀ bucket, bucket ≠ .hostless →
      (router.tree bucket ≠ none ↔ ∃ value, (bucket, value) ∈ placed) := by
    intro bucket hbucket
    rw [ne_eq, h.tree_none bucket hbucket]
    constructor
    · intro hne
      obtain ⟨⟨segments, value⟩, hitem⟩ := List.exists_mem_of_ne_nil _ hne
      exact ⟨value, (mem_bucketItems.mp hitem).1⟩
    · rintro ⟨value, hentry⟩
      exact List.ne_nil_of_mem (mem_bucketItems.mpr ⟨hentry, rfl⟩)
  constructor
  · rintro (hexact | hwildcard)
    · obtain ⟨⟨host, tree⟩, rest, hlist⟩ := List.exists_cons_of_ne_nil hexact
      have htree : router.tree (.exact host) ≠ none := by
        simp [Router.tree, hlist]
      obtain ⟨value, hentry⟩ := (hpresent _ (by simp)).mp htree
      exact ⟨_, hentry, by simp⟩
    · obtain ⟨⟨suffix, tree⟩, rest, hlist⟩ := List.exists_cons_of_ne_nil hwildcard
      have htree : router.tree (.wildcard suffix) ≠ none := by
        simp [Router.tree, hlist]
      obtain ⟨value, hentry⟩ := (hpresent _ (by simp)).mp htree
      exact ⟨_, hentry, by simp⟩
  · rintro ⟨⟨bucket, value⟩, hentry, hbucket⟩
    have htree := (hpresent bucket hbucket).mpr ⟨value, hentry⟩
    cases bucket with
    | exact host =>
      left
      rintro hempty
      simp [Router.tree, hempty] at htree
    | wildcard suffix =>
      right
      rintro hempty
      simp [Router.tree, hempty] at htree
    | hostless => contradiction

/-! ## Distinct keys -/

def Bucket.rank : Bucket → Nat
  | .exact _ => 2
  | .wildcard _ => 1
  | .hostless => 0

theorem compileHostPattern_rank {pattern : Bytes} {host : CompiledHostPattern}
    (h : compileHostPattern tables pattern = .ok host) :
    host.specificity.kindRank = host.bucket.rank := by
  unfold compileHostPattern at h
  split at h
  · split at h
    · contradiction
    split at h
    · contradiction
    · cases h
      rfl
  · split at h
    · contradiction
    split at h
    · contradiction
    · cases h
      rfl

/-- The host patterns of a compiled route go to different buckets, each with the
rank of its bucket. -/
theorem compileHostList_spec {raw : List Bytes} {seen : List (HostPatternKind × Bytes)}
    {hosts : List CompiledHostPattern} (h : compileHostList tables raw seen = .ok hosts) :
    (∀ host ∈ hosts, host.specificity.kindRank = host.bucket.rank ∧
      (host.kind, host.value) ∉ seen) ∧
    (hosts.map CompiledHostPattern.bucket).Nodup := by
  induction raw generalizing seen hosts with
  | nil =>
    obtain rfl : [] = hosts := by simpa [compileHostList] using h
    simp
  | cons pattern rest ih =>
    simp only [compileHostList] at h
    cases hpattern : compileHostPattern tables pattern with
    | error cause => simp [hpattern] at h
    | ok host =>
      simp only [hpattern] at h
      split at h
      · contradiction
      rename_i hfresh
      cases hrest : compileHostList tables rest ((host.kind, host.value) :: seen) with
      | error cause => simp [hrest] at h
      | ok others =>
        obtain rfl : host :: others = hosts := by simpa [hrest] using h
        obtain ⟨hspec, hnodup⟩ := ih hrest
        refine ⟨?_, ?_⟩
        · refine List.forall_mem_cons.mpr ⟨⟨compileHostPattern_rank hpattern, ?_⟩, ?_⟩
          · simpa using hfresh
          · intro other hother
            obtain ⟨hrank, hnotin⟩ := hspec other hother
            exact ⟨hrank, fun hin => hnotin (List.mem_cons_of_mem _ hin)⟩
        · rw [List.map_cons, List.nodup_cons]
          refine ⟨fun hin => ?_, hnodup⟩
          obtain ⟨other, hother, hbucket⟩ := List.mem_map.mp hin
          -- two patterns of one bucket have one kind and one value
          have hsame : (other.kind, other.value) = (host.kind, host.value) := by
            unfold CompiledHostPattern.bucket at hbucket
            cases hkind : other.kind <;> cases hkind' : host.kind <;>
              simp_all
          exact (hspec other hother).2 (hsame ▸ List.mem_cons_self)

theorem compileParts_eq_ok {route : RouteSpec} {parts : RouteParts}
    (h : compileParts tables route = .ok parts) :
    compilePathPattern route.routeMatch.path = .ok parts.path ∧
    compileMethods tables route.routeMatch.methods = .ok parts.methods ∧
    compilePredicates route.routeMatch.headers route.routeMatch.queries = .ok parts.predicates ∧
    compileRouteHosts tables route.routeMatch.hosts = .ok parts.hosts := by
  unfold compileParts at h
  cases hpath : compilePathPattern route.routeMatch.path with
  | error cause => simp [hpath, Except.mapError, bind, Except.bind] at h
  | ok path =>
    cases hmethods : compileMethods tables route.routeMatch.methods with
    | error cause => simp [hpath, hmethods, Except.mapError, bind, Except.bind] at h
    | ok methods =>
      cases hpredicates : compilePredicates route.routeMatch.headers
          route.routeMatch.queries with
      | error cause =>
        simp [hpath, hmethods, hpredicates, Except.mapError, bind, Except.bind] at h
      | ok predicates =>
        cases hhosts : compileRouteHosts tables route.routeMatch.hosts with
        | error cause =>
          simp [hpath, hmethods, hpredicates, hhosts, Except.mapError, bind,
            Except.bind] at h
        | ok hosts =>
          obtain rfl : ⟨path, methods, predicates, hosts⟩ = parts := by
            simpa [hpath, hmethods, hpredicates, hhosts, Except.mapError, bind,
              Except.bind, pure, Except.pure] using h
          exact ⟨rfl, rfl, rfl, rfl⟩

/-- A placement of a route carries its ID and the rank of its bucket. -/
theorem mem_routePlacements {route : RouteSpec} {parts : RouteParts}
    (h : compileParts tables route = .ok parts) {entry : Bucket × Candidate} :
    entry ∈ routePlacements tables route ↔
      entry = (entry.1, parts.candidate route entry.1.rank) ∧
        ((parts.hosts = [] ∧ entry.1 = .hostless) ∨
          ∃ host ∈ parts.hosts, host.bucket = entry.1) := by
  obtain ⟨_, _, _, hhosts⟩ := compileParts_eq_ok h
  have hspec := (compileHostList_spec hhosts).1
  rw [routePlacements, h]
  simp only [RouteParts.placements]
  obtain ⟨bucket, value⟩ := entry
  cases hlist : parts.hosts with
  | nil =>
    simp only [List.mem_singleton, Prod.mk.injEq]
    constructor
    · rintro ⟨rfl, rfl⟩
      exact ⟨⟨trivial, rfl⟩, Or.inl ⟨trivial, rfl⟩⟩
    · rintro ⟨⟨_, hvalue⟩, ⟨_, rfl⟩ | ⟨host, hhost, _⟩⟩
      · exact ⟨rfl, hvalue⟩
      · simp at hhost
  | cons first rest =>
    rw [hlist] at hspec
    simp only [List.mem_map, Prod.mk.injEq]
    constructor
    · rintro ⟨host, hhost, rfl, rfl⟩
      refine ⟨⟨trivial, ?_⟩, Or.inr ⟨host, hhost, rfl⟩⟩
      rw [(hspec host hhost).1]
    · rintro ⟨⟨_, hvalue⟩, ⟨hempty, _⟩ | ⟨host, hhost, rfl⟩⟩
      · simp at hempty
      · refine ⟨host, hhost, rfl, ?_⟩
        rw [hvalue, (hspec host hhost).1]

theorem routePlacements_nodup (tables : UnicodeTables) (route : RouteSpec) :
    ((routePlacements tables route).map Prod.fst).Nodup := by
  cases hparts : compileParts tables route with
  | error cause => simp [routePlacements, hparts]
  | ok parts =>
    obtain ⟨_, _, _, hhosts⟩ := compileParts_eq_ok hparts
    have hnodup := (compileHostList_spec hhosts).2
    simp only [routePlacements, hparts, RouteParts.placements]
    split
    · simp
    · simpa [Function.comp_def] using hnodup

theorem routeID_of_mem_routePlacements {route : RouteSpec} {entry : Bucket × Candidate}
    (h : entry ∈ routePlacements tables route) :
    entry.2.routeID = route.id ∧ entry.2.hostRank = entry.1.rank := by
  cases hparts : compileParts tables route with
  | error cause => simp [routePlacements, hparts] at h
  | ok parts =>
    obtain ⟨hentry, _⟩ := (mem_routePlacements hparts).mp h
    have hvalue := congrArg Prod.snd hentry
    rw [hvalue]
    exact ⟨rfl, rfl⟩

/-- With distinct route IDs, no bucket holds two placements of one ID. -/
theorem allPlacements_nodup (hids : (routes.map RouteSpec.id).Nodup) :
    ((allPlacements tables routes).map fun entry => (entry.1, entry.2.routeID)).Nodup := by
  induction routes with
  | nil => simp [allPlacements]
  | cons route rest ih =>
    rw [List.map_cons, List.nodup_cons] at hids
    rw [allPlacements, List.flatMap_cons, List.map_append, List.nodup_append]
    refine ⟨?_, ih hids.2, ?_⟩
    · have hbuckets := routePlacements_nodup tables route
      refine List.Nodup.of_map Prod.fst ?_
      rw [List.map_map]
      exact hbuckets
    · rintro _ hfirst _ hsecond rfl
      obtain ⟨entry, hentry, heq⟩ := List.mem_map.mp hfirst
      obtain ⟨other, hother, heq'⟩ := List.mem_map.mp hsecond
      obtain ⟨source, hsource, hplaced⟩ := List.mem_flatMap.mp hother
      have hid : source.id = route.id := by
        rw [← (routeID_of_mem_routePlacements hplaced).1,
          ← (routeID_of_mem_routePlacements hentry).1]
        exact congrArg Prod.snd (heq'.trans heq.symm)
      exact hids.1 (hid ▸ List.mem_map_of_mem hsource)

/-- With distinct route IDs the placements of a bucket have distinct keys. -/
theorem bucketItems_keys_nodup (hids : (routes.map RouteSpec.id).Nodup) (bucket : Bucket) :
    (itemKeys (bucketItems bucket (allPlacements tables routes))).Nodup := by
  refine List.Nodup.of_map (fun key => (bucket, key.routeID)) ?_
  rw [itemKeys, List.map_map]
  have hplaced : ((allPlacements tables routes).map fun entry =>
      (entry.1, entry.2.routeID)).Nodup := allPlacements_nodup hids
  refine hplaced.sublist (map_filterMap_sublist ?_ _)
  rintro ⟨stored, value⟩ item hitem
  split at hitem
  · rename_i hstored
    cases hitem
    exact congrArg (·, value.routeID) hstored.symm
  · contradiction

/-- Two placements with one key and one bucket are the same candidate. -/
theorem eq_of_key_eq (hids : (routes.map RouteSpec.id).Nodup) {bucket : Bucket}
    {first second : Candidate} (hfirst : (bucket, first) ∈ allPlacements tables routes)
    (hsecond : (bucket, second) ∈ allPlacements tables routes) (hkey : first.key = second.key) :
    first = second := by
  have hrouteID : first.routeID = second.routeID := congrArg PrecedenceKey.routeID hkey
  have hentry := List.inj_on_of_nodup_map (allPlacements_nodup hids) hfirst hsecond
    (congrArg (bucket, ·) hrouteID)
  exact congrArg Prod.snd hentry

/-! ## Order and choices do not matter -/

/-- The signature does not depend on how ties among encoded predicates are
broken: tied predicates are encoded alike. -/
theorem signatureOf_choices (tables : UnicodeTables) (choices choices' : CompileChoices)
    (route : RouteSpec) : signatureOf tables choices route = signatureOf tables choices' route := by
  have hsame : ∀ values, (choices.sortPredicates values).map marshalPredicate =
      (choices'.sortPredicates values).map marshalPredicate := by
    intro values
    have hperm : ((choices.sortPredicates values).map marshalPredicate).Perm
        ((choices'.sortPredicates values).map marshalPredicate) :=
      ((choices.sortPredicates_perm values).trans
        (choices'.sortPredicates_perm values).symm).map _
    have hsorted : ∀ any : CompileChoices, ((any.sortPredicates values).map
        marshalPredicate).Pairwise (· ≤ ·) := by
      intro any
      rw [List.pairwise_map]
      exact (any.sortPredicates_sorted values).imp not_lt.mp
    refine hperm.eq_of_pairwise ?_ (hsorted choices) (hsorted choices')
    intro first second _ _ hle hge
    exact le_antisymm hle hge
  unfold signatureOf
  split
  · rfl
  · simp only [routeSignature, hsame]

theorem Accepted.perm {choices : CompileChoices} {routes' : List RouteSpec}
    (h : Accepted tables choices routes) (hperm : routes.Perm routes') (choices' : CompileChoices) :
    Accepted tables choices' routes' := by
  obtain ⟨hne, valid, _, distinctIDs, _, distinctSignatures⟩ := h
  have hsignatures : routes.map (signatureOf tables choices) =
      routes.map (signatureOf tables choices') :=
    List.map_congr_left fun route _ => signatureOf_choices tables choices choices' route
  refine ⟨?_, ?_, ?_, ?_, ?_, ?_⟩
  · rintro rfl
    exact hne (List.perm_nil.mp hperm)
  · intro route hroute
    exact valid route (hperm.mem_iff.mpr hroute)
  · simp
  · exact (hperm.map _).nodup_iff.mp distinctIDs
  · simp
  · exact (hperm.map _).nodup_iff.mp (hsignatures ▸ distinctSignatures)

theorem allPlacements_perm (tables : UnicodeTables) {routes' : List RouteSpec}
    (hperm : routes.Perm routes') :
    (allPlacements tables routes).Perm (allPlacements tables routes') :=
  hperm.flatMap_right _

end GGateway.Router
