import GGateway.Router.Finalize
import GGateway.Text.Json

/-!
# Compiling a route list

`Compile`, `compileRouteHosts` and `routeSignature` of
`internal/router/router.go`.  A router holds one trie for each exact host, one
for each wildcard suffix and one for routes without hosts; a route is placed in
the trie of each of its host patterns.
-/

set_option linter.dupNamespace false

namespace GGateway.Router

open Text Library Model

structure RouteSpec where
  index : Int
  id : Bytes
  priority : Int
  routeMatch : RouteMatch
  deriving DecidableEq, Repr

structure Router where
  exactHosts : List (Bytes × PathNode)
  wildcardHosts : List (Bytes × PathNode)
  hostless : PathNode

inductive RouteHostsError where
  | pattern (cause : HostPatternError)
  | duplicate (pattern : Bytes)
  deriving DecidableEq, Repr

/-- The loop of `compileRouteHosts`.  `seen` holds the kind and value that the
source prints into one key. -/
def compileHostList (tables : UnicodeTables) :
    List Bytes → List (HostPatternKind × Bytes) → Except RouteHostsError (List CompiledHostPattern)
  | [], _ => .ok []
  | pattern :: rest, seen =>
    match compileHostPattern tables pattern with
    | .error cause => .error (.pattern cause)
    | .ok host =>
      if seen.contains (host.kind, host.value) then .error (.duplicate pattern)
      else
        match compileHostList tables rest ((host.kind, host.value) :: seen) with
        | .error cause => .error cause
        | .ok hosts => .ok (host :: hosts)

variable (tables : UnicodeTables)

def compileRouteHosts (raw : List Bytes) :
    Except RouteHostsError (List CompiledHostPattern) :=
  compileHostList tables raw []

/-! ## Signatures -/

structure CanonicalPredicate where
  kind : FieldKind
  name : Bytes
  operator : PredicateOperator
  values : List Bytes
  deriving DecidableEq, Repr

/-- `json.Marshal` of a canonical predicate; a field kind is a number. -/
def marshalPredicate (predicate : CanonicalPredicate) : Bytes :=
  jsonObject
    [(ascii "kind", match predicate.kind with
        | .fieldHeader => jsonInt 0
        | .fieldQuery => jsonInt 1),
      (ascii "name", jsonString predicate.name),
      (ascii "operator", jsonString predicate.operator.text),
      (ascii "values", jsonArray (predicate.values.map jsonString))]

/-- The choices of `finalizeNode`, and the result of the `sort.Slice` over the
encoded predicates. -/
structure CompileChoices extends Choices where
  sortPredicates : List CanonicalPredicate → List CanonicalPredicate
  sortPredicates_perm : ∀ values, (sortPredicates values).Perm values
  sortPredicates_sorted : ∀ values, (sortPredicates values).Pairwise fun earlier later =>
    ¬ marshalPredicate later < marshalPredicate earlier

/-- Stable sorting and iteration in insertion order are one way to choose. -/
def CompileChoices.stable : CompileChoices where
  sortCandidates values := values.mergeSort fun left right => decide (right.key ≤ left.key)
  sortCandidates_perm values := List.mergeSort_perm values _
  sortCandidates_sorted values :=
    (pairwise_mergeSort_of_total (fun left right : Candidate => right.key ≤ left.key)
      (fun _ _ _ h1 h2 => le_trans h2 h1) (fun _ _ => le_total _ _) values).imp
        (comparePrecedence_ne_gt _ _).mpr
  rangeStatic entries := entries
  rangeStatic_perm entries := List.Perm.refl entries
  sortPredicates values :=
    values.mergeSort fun left right => decide (marshalPredicate left ≤ marshalPredicate right)
  sortPredicates_perm values := List.mergeSort_perm values _
  sortPredicates_sorted values :=
    (pairwise_mergeSort_of_total
      (fun left right => marshalPredicate left ≤ marshalPredicate right)
      (fun _ _ _ => le_trans) (fun _ _ => le_total _ _) values).imp not_lt.mpr

def canonicalPredicate (predicate : CompiledPredicate) : CanonicalPredicate where
  kind := predicate.kind
  name := predicate.name
  operator := predicate.operator
  values := predicate.values.sort (· ≤ ·)

def canonicalHost (host : CompiledHostPattern) : Bytes :=
  match host.kind with
  | .hostPatternExact => ascii "=" ++ host.value
  | .hostPatternWildcard => ascii "*." ++ host.value

def routeSignature (choices : CompileChoices) (priority : Int) (path : Bytes)
    (hosts : List CompiledHostPattern) (methods : MethodSet)
    (predicates : List CompiledPredicate) : Bytes :=
  jsonObject
    [(ascii "priority", jsonInt priority),
      (ascii "path", jsonString path),
      (ascii "hosts", jsonArray ((sortStrings (hosts.map canonicalHost)).map jsonString)),
      (ascii "methods", jsonArray (methods.sortedValues.map jsonString)),
      (ascii "predicates",
        jsonArray ((choices.sortPredicates (predicates.map canonicalPredicate)).map
          marshalPredicate))]

/-! ## Compile -/

inductive CompileError where
  | emptyRoutes
  | emptyID (index : Nat)
  | duplicateID (id : Bytes)
  | path (id : Bytes) (cause : PathError)
  | methods (id : Bytes) (cause : MethodError)
  | predicates (id : Bytes) (cause : PredicatesError)
  | hosts (id : Bytes) (cause : RouteHostsError)
  | duplicateMatch (previous id : Bytes)
  deriving DecidableEq, Repr

/-- What the loop body of `Compile` obtains from one route. -/
structure RouteParts where
  path : CompiledPathPattern
  methods : MethodSet
  predicates : List CompiledPredicate
  hosts : List CompiledHostPattern

def compileParts (route : RouteSpec) : Except CompileError RouteParts := do
  let path ← (compilePathPattern route.routeMatch.path).mapError (.path route.id)
  let methods ← (compileMethods tables route.routeMatch.methods).mapError (.methods route.id)
  let predicates ← (compilePredicates route.routeMatch.headers route.routeMatch.queries).mapError
    (.predicates route.id)
  let hosts ← (compileRouteHosts tables route.routeMatch.hosts).mapError (.hosts route.id)
  return ⟨path, methods, predicates, hosts⟩

/-- The trie a candidate goes to. -/
inductive Bucket where
  | exact (host : Bytes)
  | wildcard (suffix : Bytes)
  | hostless
  deriving DecidableEq, Repr

def CompiledHostPattern.bucket (host : CompiledHostPattern) : Bucket :=
  match host.kind with
  | .hostPatternExact => .exact host.value
  | .hostPatternWildcard => .wildcard host.value

/-- The candidate `base` of the loop body, with a host rank. -/
def RouteParts.candidate (route : RouteSpec) (parts : RouteParts) (hostRank : Nat) : Candidate where
  routeIndex := route.index
  routeID := route.id
  priority := route.priority
  hostRank := hostRank
  path := parts.path
  methods := parts.methods
  predicates := parts.predicates

/-- The insertions that the loop body makes for one route, in order. -/
def RouteParts.placements (route : RouteSpec) (parts : RouteParts) : List (Bucket × Candidate) :=
  match parts.hosts with
  | [] => [(.hostless, parts.candidate route 0)]
  | hosts => hosts.map fun host => (host.bucket, parts.candidate route host.specificity.kindRank)

/-- Insert into the trie of a bucket, which is created on first use. -/
def Router.insert (router : Router) (entry : Bucket × Candidate) : Router :=
  let update := fun tree : Option PathNode => insertCandidate (tree.getD .empty) entry.2
  match entry.1 with
  | .exact host => { router with exactHosts := Assoc.upsert host update router.exactHosts }
  | .wildcard suffix =>
    { router with wildcardHosts := Assoc.upsert suffix update router.wildcardHosts }
  | .hostless => { router with hostless := insertCandidate router.hostless entry.2 }

structure CompileState where
  router : Router
  routeIDs : List Bytes
  signatures : List (Bytes × Bytes)

/-- The loop body of `Compile`. -/
def compileRoute (choices : CompileChoices) (index : Nat)
    (route : RouteSpec) (state : CompileState) : Except CompileError CompileState :=
  if trimSpace route.id = [] then .error (.emptyID index)
  else if state.routeIDs.contains route.id then .error (.duplicateID route.id)
  else
    match compileParts tables route with
    | .error cause => .error cause
    | .ok parts =>
      let signature := routeSignature choices route.priority parts.path.raw parts.hosts
        parts.methods parts.predicates
      match state.signatures.lookup signature with
      | some previous => .error (.duplicateMatch previous route.id)
      | none =>
        .ok
          { router := (parts.placements route).foldl Router.insert state.router
            routeIDs := route.id :: state.routeIDs
            signatures := (signature, route.id) :: state.signatures }

/-- The loop of `Compile` from an index on. -/
def compileRoutes (tables : UnicodeTables) (choices : CompileChoices) :
    Nat → List RouteSpec → CompileState → Except CompileError CompileState
  | _, [], state => .ok state
  | index, route :: rest, state =>
    match compileRoute tables choices index route state with
    | .error cause => .error cause
    | .ok next => compileRoutes tables choices (index + 1) rest next

def Router.empty : Router :=
  ⟨[], [], .empty⟩

def Router.finalize (choices : Choices) (router : Router) : Router where
  exactHosts := finalizeStatic choices router.exactHosts
  wildcardHosts := finalizeStatic choices router.wildcardHosts
  hostless := finalizeNode choices router.hostless

def compile (choices : CompileChoices) (routes : List RouteSpec) :
    Except CompileError Router :=
  if routes = [] then .error .emptyRoutes
  else
    match compileRoutes tables choices 0 routes ⟨.empty, [], []⟩ with
    | .error cause => .error cause
    | .ok state => .ok (state.router.finalize choices.toChoices)

/-! ## Which lists are accepted -/

/-- The insertions made for a route that compiles. -/
def routePlacements (route : RouteSpec) : List (Bucket × Candidate) :=
  match compileParts tables route with
  | .error _ => []
  | .ok parts => parts.placements route

/-- The signature of a route that compiles. -/
def signatureOf (choices : CompileChoices) (route : RouteSpec) : Bytes :=
  match compileParts tables route with
  | .error _ => []
  | .ok parts =>
    routeSignature choices route.priority parts.path.raw parts.hosts parts.methods
      parts.predicates

/-- A route that is valid on its own. -/
def ValidRoute (route : RouteSpec) : Prop :=
  trimSpace route.id ≠ [] ∧ ∃ parts, compileParts tables route = .ok parts

theorem lookup_eq_none_iff {entries : List (Bytes × Bytes)} {key : Bytes} :
    entries.lookup key = none ↔ key ∉ entries.map Prod.fst := by
  rw [List.lookup_eq_none_iff]
  simp only [List.mem_map, not_exists, not_and, bne_iff_ne]
  exact forall₂_congr fun entry _ => ne_comm

variable {tables : UnicodeTables} {choices : CompileChoices}

/-- Everything one pass through the loop body asks for and does. -/
theorem compileRoute_eq_ok_iff {index : Nat} {route : RouteSpec} {state next : CompileState} :
    compileRoute tables choices index route state = .ok next ↔
      ValidRoute tables route ∧ route.id ∉ state.routeIDs ∧
      signatureOf tables choices route ∉ state.signatures.map Prod.fst ∧
      next =
        { router := (routePlacements tables route).foldl Router.insert state.router
          routeIDs := route.id :: state.routeIDs
          signatures := (signatureOf tables choices route, route.id) :: state.signatures } := by
  unfold compileRoute ValidRoute
  by_cases hblank : trimSpace route.id = []
  · simp [hblank]
  by_cases hid : route.id ∈ state.routeIDs
  · simp [hblank, hid]
  simp only [hblank, if_false, List.contains_eq_mem, hid, decide_false, Bool.false_eq_true,
    not_false_eq_true, true_and, ne_eq]
  cases hparts : compileParts tables route with
  | error cause => simp
  | ok parts =>
    simp only [signatureOf, routePlacements, hparts, ← lookup_eq_none_iff]
    cases state.signatures.lookup _ with
    | some previous => simp
    | none => simp [eq_comm]

/-- The list is accepted from a state in which some IDs and signatures are
taken. -/
structure AcceptedFrom (tables : UnicodeTables) (choices : CompileChoices)
    (ids signatures : List Bytes) (routes : List RouteSpec) : Prop where
  valid : ∀ route ∈ routes, ValidRoute tables route
  freshIDs : ∀ route ∈ routes, route.id ∉ ids
  distinctIDs : (routes.map RouteSpec.id).Nodup
  freshSignatures : ∀ route ∈ routes, signatureOf tables choices route ∉ signatures
  distinctSignatures : (routes.map (signatureOf tables choices)).Nodup

theorem acceptedFrom_cons {ids signatures : List Bytes} {route : RouteSpec}
    {rest : List RouteSpec} :
    AcceptedFrom tables choices ids signatures (route :: rest) ↔
      (ValidRoute tables route ∧ route.id ∉ ids ∧
        signatureOf tables choices route ∉ signatures) ∧
      AcceptedFrom tables choices (route.id :: ids)
        (signatureOf tables choices route :: signatures) rest := by
  constructor
  · rintro ⟨valid, freshIDs, distinctIDs, freshSignatures, distinctSignatures⟩
    rw [List.map_cons, List.nodup_cons] at distinctIDs distinctSignatures
    refine ⟨⟨valid route List.mem_cons_self, freshIDs route List.mem_cons_self,
      freshSignatures route List.mem_cons_self⟩, ?_, ?_, distinctIDs.2, ?_, distinctSignatures.2⟩
    · intro other hother
      exact valid other (List.mem_cons_of_mem _ hother)
    · intro other hother hin
      rcases List.mem_cons.mp hin with hsame | hold
      · exact distinctIDs.1 (hsame ▸ List.mem_map_of_mem hother)
      · exact freshIDs other (List.mem_cons_of_mem _ hother) hold
    · intro other hother hin
      rcases List.mem_cons.mp hin with hsame | hold
      · exact distinctSignatures.1 (hsame ▸ List.mem_map_of_mem hother)
      · exact freshSignatures other (List.mem_cons_of_mem _ hother) hold
  · rintro ⟨⟨hvalid, hid, hsignature⟩, valid, freshIDs, distinctIDs, freshSignatures,
      distinctSignatures⟩
    refine ⟨?_, ?_, ?_, ?_, ?_⟩
    · exact List.forall_mem_cons.mpr ⟨hvalid, valid⟩
    · refine List.forall_mem_cons.mpr ⟨hid, fun other hother hin => ?_⟩
      exact freshIDs other hother (List.mem_cons_of_mem _ hin)
    · rw [List.map_cons, List.nodup_cons]
      refine ⟨fun hin => ?_, distinctIDs⟩
      obtain ⟨other, hother, hsame⟩ := List.mem_map.mp hin
      exact freshIDs other hother (hsame ▸ List.mem_cons_self)
    · refine List.forall_mem_cons.mpr ⟨hsignature, fun other hother hin => ?_⟩
      exact freshSignatures other hother (List.mem_cons_of_mem _ hin)
    · rw [List.map_cons, List.nodup_cons]
      refine ⟨fun hin => ?_, distinctSignatures⟩
      obtain ⟨other, hother, hsame⟩ := List.mem_map.mp hin
      exact freshSignatures other hother (hsame ▸ List.mem_cons_self)

theorem compileRoutes_accepts_iff (tables : UnicodeTables) (choices : CompileChoices) (index : Nat)
    (routes : List RouteSpec) (state : CompileState) :
    (∃ final, compileRoutes tables choices index routes state = .ok final) ↔
      AcceptedFrom tables choices state.routeIDs (state.signatures.map Prod.fst) routes := by
  induction routes generalizing index state with
  | nil =>
    refine iff_of_true ⟨state, rfl⟩ ?_
    constructor <;> simp
  | cons route rest ih =>
    rw [acceptedFrom_cons]
    simp only [compileRoutes]
    cases hstep : compileRoute tables choices index route state with
    | error cause =>
      have hreject : ¬ (ValidRoute tables route ∧ route.id ∉ state.routeIDs ∧
          signatureOf tables choices route ∉ state.signatures.map Prod.fst) := by
        rintro ⟨hvalid, hid, hsignature⟩
        have hok : compileRoute tables choices index route state = .ok _ :=
          compileRoute_eq_ok_iff.mpr ⟨hvalid, hid, hsignature, rfl⟩
        rw [hstep] at hok
        contradiction
      refine iff_of_false ?_ fun h => hreject h.1
      rintro ⟨final, hfinal⟩
      contradiction
    | ok next =>
      obtain ⟨hvalid, hid, hsignature, rfl⟩ := compileRoute_eq_ok_iff.mp hstep
      simp only [ih, List.map_cons]
      exact ⟨fun h => ⟨⟨hvalid, hid, hsignature⟩, h⟩, fun h => h.2⟩

theorem compileRoutes_router {index : Nat} {routes : List RouteSpec} {state final : CompileState}
    (h : compileRoutes tables choices index routes state = .ok final) :
    final.router = (routes.flatMap (routePlacements tables)).foldl Router.insert state.router := by
  induction routes generalizing index state with
  | nil =>
    obtain rfl : state = final := by simpa [compileRoutes] using h
    rfl
  | cons route rest ih =>
    simp only [compileRoutes] at h
    cases hstep : compileRoute tables choices index route state with
    | error cause => simp [hstep] at h
    | ok next =>
      simp only [hstep] at h
      obtain ⟨_, _, _, rfl⟩ := compileRoute_eq_ok_iff.mp hstep
      rw [ih h, List.flatMap_cons, List.foldl_append]

/-- A list that `Compile` accepts. -/
def Accepted (tables : UnicodeTables) (choices : CompileChoices) (routes : List RouteSpec) : Prop :=
  routes ≠ [] ∧ AcceptedFrom tables choices [] [] routes

theorem compile_accepts_iff {routes : List RouteSpec} :
    (∃ router, compile tables choices routes = .ok router) ↔ Accepted tables choices routes := by
  have hroutes := compileRoutes_accepts_iff tables choices 0 routes ⟨.empty, [], []⟩
  unfold compile Accepted
  by_cases hempty : routes = []
  · simp [hempty]
  simp only [hempty, if_false, ne_eq, not_false_eq_true, true_and]
  rw [show AcceptedFrom tables choices [] [] routes ↔ _ from hroutes.symm]
  cases compileRoutes tables choices 0 routes ⟨.empty, [], []⟩ <;> simp

end GGateway.Router
