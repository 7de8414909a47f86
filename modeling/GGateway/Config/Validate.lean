import GGateway.Upstream.Config

/-!
# Validating a decoded configuration

The part of `internal/config/validate.go` that looks at resources, for every version of
the document.  A validator rewrites the resources it accepts: upstreams are replaced by
their canonical form, and the methods of a route match are mapped to upper case.  The
checks of listeners, files and the server come before and do not read resources.
-/

namespace GGateway.Config

open Text Model Library.Checks
open GGateway.Upstream (Platform Cause ConfigError normalize decimal indexed)

inductive ApiVersion where
  | v1alpha1
  | v1alpha2
  | v1alpha3
  | v1alpha4
  | v1alpha5
  | v1alpha6
  | v1alpha7
  deriving DecidableEq, Repr

/-- A message of the validator, or an error that `Normalize` returned. -/
inductive ValidationError where
  | message (cause : Cause)
  | upstream (cause : ConfigError)
  deriving DecidableEq

def fieldError (field message : Bytes) : ValidationError :=
  .message (.text (field ++ ascii ": " ++ message))

/-! ## IDs -/

/-- The loop of `validateResourceIDs` over the resources of one kind. -/
def validateIDs (kind plural : Bytes) :
    Nat → List Bytes → List Bytes → Except ValidationError Unit
  | _, [], _ => .ok ()
  | index, raw :: rest, seen => do
      let id := trimSpace raw
      require (id ≠ [])
        (fieldError (indexed plural index ++ ascii ".id") (ascii "must not be empty"))
      require (!seen.contains id)
        (.message (.quoting (ascii "duplicate " ++ kind ++ ascii " id ") id []))
      validateIDs kind plural (index + 1) rest (id :: seen)

def validateResourceIDs (resources : ResourceSet) : Except ValidationError Unit := do
  validateIDs (ascii "route") (ascii "routes") 0 (resources.routes.map (·.id)) []
  validateIDs (ascii "service") (ascii "services") 0 (resources.services.map (·.id)) []
  validateIDs (ascii "upstream") (ascii "upstreams") 0 (resources.upstreams.map (·.id)) []

/-! ## Upstreams -/

def legacyEndpoints (platform : Platform) (field : Bytes) :
    Nat → List Endpoint → Except ValidationError Unit
  | _, [] => .ok ()
  | index, endpoint :: rest => do
      require ((platform.parseURL endpoint.url).toOption.map (·.scheme) = some (ascii "http"))
        (fieldError (indexed (field ++ ascii ".endpoints") index ++ ascii ".url")
          (ascii "scheme http is required"))
      legacyEndpoints platform field (index + 1) rest

def validateLegacyUpstreamSchemes (platform : Platform) :
    Nat → List Upstream → Except ValidationError Unit
  | _, [] => .ok ()
  | index, upstream :: rest => do
      legacyEndpoints platform (indexed (ascii "upstreams") index) 0 upstream.endpoints
      validateLegacyUpstreamSchemes platform (index + 1) rest

variable (platform : Platform)

/-- `validateUpstream` of the first two versions. -/
def validateUpstream (index : Nat) (upstream : Upstream) :
    Except ValidationError Upstream := do
  let field := indexed (ascii "upstreams") index ++ ascii ".endpoints"
  require (upstream.endpoints.length = 1)
    (fieldError field (ascii "Phase 1 requires exactly one endpoint"))
  require (upstream.endpoints.head?.map (·.weight) = some 1)
    (fieldError (field ++ ascii "[0].weight") (ascii "legacy configuration requires weight 1"))
  let normalized ← (normalize platform [upstream]).mapError ValidationError.upstream
  pure (normalized.headD upstream)

def validateUpstreams (platform : Platform) :
    Nat → List Upstream → Except ValidationError (List Upstream)
  | _, [] => .ok []
  | index, upstream :: rest => do
      let first ← validateUpstream platform index upstream
      let others ← validateUpstreams platform (index + 1) rest
      pure (first :: others)

/-! ## Services and routes -/

/-- `validatePluginAttachments`, with the position and the names seen so far. -/
def validatePluginAttachments (field : Bytes) :
    Nat → List PluginAttachment → List Bytes → Except ValidationError Unit
  | _, [], _ => .ok ()
  | index, plugin :: rest, seen => do
      require (trimSpace plugin.name ≠ [])
        (fieldError (indexed field index ++ ascii ".name") (ascii "must not be empty"))
      require (!seen.contains plugin.name)
        (.message (.quoting (field ++ ascii ": duplicate plugin name ") plugin.name []))
      validatePluginAttachments field (index + 1) rest (plugin.name :: seen)

def validateService (upstreams : List Upstream) (index : Nat) (service : Service) :
    Except ValidationError Unit := do
  let field := indexed (ascii "services") index
  require (∃ upstream ∈ upstreams, upstream.id = service.upstreamRef)
    (.message (.quoting (field ++ ascii ".upstream_ref: ") service.upstreamRef
      (ascii " does not resolve")))
  validatePluginAttachments (field ++ ascii ".plugins") 0 service.plugins []

def validateServices (upstreams : List Upstream) :
    Nat → List Service → Except ValidationError Unit
  | _, [] => .ok ()
  | index, service :: rest => do
      validateService upstreams index service
      validateServices upstreams (index + 1) rest

/-- The loop over the methods of a match, with those seen so far in upper case. -/
def validateMethods (platform : Platform) (field : Bytes) :
    Nat → List Bytes → List Bytes → Except ValidationError (List Bytes)
  | _, [], _ => .ok []
  | index, method :: rest, seen => do
      require (validToken method)
        (.message (.quoting (indexed field index ++ ascii ": invalid HTTP method ") method []))
      let upper := toUpper platform.tables method
      require (!seen.contains upper)
        (.message (.quoting (field ++ ascii ": duplicate method ") upper []))
      let others ← validateMethods platform field (index + 1) rest (upper :: seen)
      pure (upper :: others)

def validateRouteMatch (field : Bytes) (routeMatch : RouteMatch) :
    Except ValidationError RouteMatch := do
  require (hasPrefix routeMatch.path (ascii "/"))
    (fieldError (field ++ ascii ".match.path") (ascii "must be an absolute path"))
  require (!containsAny routeMatch.path (ascii "?#"))
    (fieldError (field ++ ascii ".match.path") (ascii "query and fragment are not allowed"))
  require (routeMatch.methods ≠ [])
    (fieldError (field ++ ascii ".match.methods") (ascii "must not be empty"))
  let methods ← validateMethods platform (field ++ ascii ".match.methods") 0 routeMatch.methods []
  pure { routeMatch with methods := methods }

/-- How many values an operator takes, with the words of the error. -/
def operatorArity (operator : PredicateOperator) (count : Nat) : Option (Bool × Bytes) :=
  match operator with
  | .exists | .notExists => some (decide (count = 0), ascii " requires no values")
  | .equals | .notEquals => some (decide (count = 1), ascii " requires exactly one value")
  | .oneOf => some (decide (count ≠ 0), ascii " requires at least one value")
  | .other _ => none

def validatePredicates (field : Bytes) : Nat → List Predicate → Except ValidationError Unit
  | _, [] => .ok ()
  | index, predicate :: rest => do
      require (trimSpace predicate.name ≠ [])
        (fieldError (indexed field index ++ ascii ".name") (ascii "must not be empty"))
      let (allowed, message) ← demand (operatorArity predicate.operator predicate.values.length)
        (.message (.quoting (indexed field index ++ ascii ".operator: unsupported ")
          predicate.operator.text []))
      require allowed (.message (.quoting (indexed field index ++ ascii ".values: operator ")
        predicate.operator.text message))
      validatePredicates field (index + 1) rest

/-- `validateRoute` of the first version. -/
def validateRoute (upstreams : List Upstream) (index : Nat) (route : Route) :
    Except ValidationError Route := do
  let field := indexed (ascii "routes") index
  let routeMatch ← validateRouteMatch platform field route.routeMatch
  require (∃ upstream ∈ upstreams, upstream.id = route.upstreamRef)
    (.message (.quoting (field ++ ascii ".upstream_ref: ") route.upstreamRef
      (ascii " does not resolve")))
  pure { route with routeMatch := routeMatch }

def validateRouteV2 (services : List Service) (upstreams : List Upstream)
    (index : Nat) (route : Route) : Except ValidationError Route := do
  let field := indexed (ascii "routes") index
  let routeMatch ← validateRouteMatch platform field route.routeMatch
  require (¬ (route.serviceRef = [] ↔ route.upstreamRef = []))
    (fieldError field (ascii "exactly one of service_ref or upstream_ref must be set"))
  require (route.serviceRef = [] ∨ ∃ service ∈ services, service.id = route.serviceRef)
    (.message (.quoting (field ++ ascii ".service_ref: ") route.serviceRef
      (ascii " does not resolve")))
  require (route.upstreamRef = [] ∨ ∃ upstream ∈ upstreams, upstream.id = route.upstreamRef)
    (.message (.quoting (field ++ ascii ".upstream_ref: ") route.upstreamRef
      (ascii " does not resolve")))
  validatePredicates (field ++ ascii ".match.headers") 0 route.routeMatch.headers
  validatePredicates (field ++ ascii ".match.queries") 0 route.routeMatch.queries
  validatePluginAttachments (field ++ ascii ".plugins") 0 route.plugins []
  pure { route with routeMatch := routeMatch }

def validateRoutes (check : Nat → Route → Except ValidationError Route) :
    Nat → List Route → Except ValidationError (List Route)
  | _, [] => .ok []
  | index, route :: rest => do
      let first ← check index route
      let others ← validateRoutes check (index + 1) rest
      pure (first :: others)

/-! ## Versions -/

/-- The end of every version but the first: services, then routes, over upstreams that are
canonical already. -/
def validateReferences (upstreams : List Upstream) (resources : ResourceSet) :
    Except ValidationError ResourceSet := do
  validateServices upstreams 0 resources.services
  let routes ← validateRoutes (validateRouteV2 platform resources.services upstreams) 0
    resources.routes
  pure { resources with routes := routes, upstreams := upstreams }

def validateCounts (resources : ResourceSet) : Except ValidationError Unit := do
  require (resources.routes ≠ [])
    (fieldError (ascii "routes") (ascii "must contain at least one route"))
  require (resources.upstreams ≠ [])
    (fieldError (ascii "upstreams") (ascii "must contain at least one upstream"))

def validateV1 (resources : ResourceSet) :
    Except ValidationError ResourceSet := do
  validateResourceIDs resources
  validateLegacyUpstreamSchemes platform 0 resources.upstreams
  require (resources.routes.length = 1)
    (fieldError (ascii "routes") (ascii "Phase 1 requires exactly one route"))
  require (resources.upstreams.length = 1)
    (fieldError (ascii "upstreams") (ascii "Phase 1 requires exactly one upstream"))
  let upstreams ← validateUpstreams platform 0 resources.upstreams
  let routes ← validateRoutes (validateRoute platform upstreams) 0 resources.routes
  pure { resources with routes := routes, upstreams := upstreams }

def validateV2 (resources : ResourceSet) :
    Except ValidationError ResourceSet := do
  validateResourceIDs resources
  validateLegacyUpstreamSchemes platform 0 resources.upstreams
  validateCounts resources
  let upstreams ← validateUpstreams platform 0 resources.upstreams
  validateReferences platform upstreams resources

/-- `validateV5`, which `validateV6` calls. -/
def validateV5 (resources : ResourceSet) :
    Except ValidationError ResourceSet := do
  validateResourceIDs resources
  validateCounts resources
  let upstreams ← (normalize platform resources.upstreams).mapError ValidationError.upstream
  validateReferences platform upstreams resources

/-- `validateV3`, which `validateV4` calls. -/
def validateV3 (resources : ResourceSet) :
    Except ValidationError ResourceSet := do
  validateResourceIDs resources
  validateLegacyUpstreamSchemes platform 0 resources.upstreams
  validateCounts resources
  let upstreams ← (normalize platform resources.upstreams).mapError ValidationError.upstream
  validateReferences platform upstreams resources

def validateBindings : Nat → List SNIBinding → Except ValidationError Unit
  | _, [] => .ok ()
  | index, binding :: rest => do
      let field := indexed (ascii "downstream_tls.sni_bindings") index
      require (trimSpace binding.certificateRef ≠ [])
        (fieldError (field ++ ascii ".certificate_ref") (ascii "must not be empty"))
      require (binding.hosts ≠ []) (fieldError (field ++ ascii ".hosts") (ascii "must not be empty"))
      validateBindings (index + 1) rest

def validateV7 (resources : ResourceSet) :
    Except ValidationError ResourceSet := do
  let policy ← demand resources.downstreamTLS
    (fieldError (ascii "downstream_tls") (ascii "is required"))
  require (trimSpace policy.defaultCertificateRef ≠ [])
    (fieldError (ascii "downstream_tls.default_certificate_ref") (ascii "must not be empty"))
  validateBindings 0 policy.sniBindings
  validateV5 platform resources

def validate : ApiVersion → ResourceSet → Except ValidationError ResourceSet
  | .v1alpha1 => validateV1 platform
  | .v1alpha2 => validateV2 platform
  | .v1alpha3 | .v1alpha4 => validateV3 platform
  | .v1alpha5 | .v1alpha6 => validateV5 platform
  | .v1alpha7 => validateV7 platform

/-! ## Accepted upstreams are canonical -/

variable {platform : Platform} {resources result : ResourceSet}

/-- Each upstream is what `Normalize` makes of one. -/
def Normalized (platform : Platform) (upstream : Upstream) : Prop :=
  ∃ field raw, Upstream.normalizeUpstream platform field raw = .ok upstream

theorem normalized_of_normalizeFrom {index total : Nat} {resources results : List Upstream}
    {seen : List Bytes}
    (h : Upstream.normalizeFrom platform index resources seen total = .ok results) :
    ∀ upstream ∈ results, Normalized platform upstream := by
  induction resources generalizing index total seen results with
  | nil =>
    cases h
    simp
  | cons resource rest ih =>
    simp only [Upstream.normalizeFrom, bind_eq_ok] at h
    obtain ⟨_, _, _, _, _, _, _, _, _, _, first, hfirst, others, hothers, hresult⟩ := h
    cases hresult
    exact List.forall_mem_cons.mpr ⟨⟨_, resource, hfirst⟩, ih hothers⟩

theorem normalized_of_normalize {resources results : List Upstream}
    (h : normalize platform resources = .ok results) :
    ∀ upstream ∈ results, Normalized platform upstream := by
  simp only [Upstream.normalize, bind_eq_ok] at h
  obtain ⟨_, _, hfrom⟩ := h
  exact normalized_of_normalizeFrom hfrom

theorem normalized_of_validateUpstreams {index : Nat} {resources results : List Upstream}
    (h : validateUpstreams platform index resources = .ok results) :
    ∀ upstream ∈ results, Normalized platform upstream := by
  induction resources generalizing index results with
  | nil =>
    cases h
    simp
  | cons resource rest ih =>
    simp only [validateUpstreams, bind_eq_ok] at h
    obtain ⟨first, hfirst, others, hothers, hresult⟩ := h
    cases hresult
    refine List.forall_mem_cons.mpr ⟨?_, ih hothers⟩
    simp only [validateUpstream, bind_eq_ok, mapError_eq_ok] at hfirst
    obtain ⟨_, _, _, _, normalized, hnormalized, hhead⟩ := hfirst
    -- One upstream was normalized, so the list has a first element.
    have hall := normalized_of_normalize hnormalized
    simp only [Upstream.normalize, bind_eq_ok, Upstream.normalizeFrom] at hnormalized
    obtain ⟨_, _, _, _, _, _, _, _, _, _, _, _, only, _, _, _, hlist⟩ := hnormalized
    cases hlist
    cases hhead
    exact hall only List.mem_cons_self

/-! ## Routes keep what is not checked -/

/-- A validated route has the ID and the overrides of the decoded one. -/
def Keeps (decoded route : Route) : Prop :=
  route.id = decoded.id ∧ route.resilience = decoded.resilience

theorem keeps_of_validateRoutes {check : Nat → Route → Except ValidationError Route}
    (hcheck : ∀ index route result, check index route = .ok result → Keeps route result)
    {index : Nat} {routes results : List Route}
    (h : validateRoutes check index routes = .ok results) : List.Forall₂ Keeps routes results := by
  induction routes generalizing index results with
  | nil =>
    cases h
    exact .nil
  | cons route rest ih =>
    simp only [validateRoutes, bind_eq_ok] at h
    obtain ⟨first, hfirst, others, hothers, hresult⟩ := h
    cases hresult
    exact .cons (hcheck index route first hfirst) (ih hothers)

theorem validateReferences_spec {upstreams : List Upstream}
    (h : validateReferences platform upstreams resources = .ok result) :
    result.upstreams = upstreams ∧ List.Forall₂ Keeps resources.routes result.routes := by
  simp only [validateReferences, bind_eq_ok] at h
  obtain ⟨_, _, routes, hroutes, hresult⟩ := h
  cases hresult
  refine ⟨rfl, keeps_of_validateRoutes (fun index route result hroute => ?_) hroutes⟩
  simp only [validateRouteV2, bind_eq_ok] at hroute
  obtain ⟨_, _, _, _, _, _, _, _, _, _, _, _, _, _, hkept⟩ := hroute
  cases hkept
  exact ⟨rfl, rfl⟩

/-- Whatever the version, the accepted upstreams are canonical and the routes keep what no
version checks. -/
theorem validate_spec {version : ApiVersion}
    (h : validate platform version resources = .ok result) :
    (∀ upstream ∈ result.upstreams, Normalized platform upstream) ∧
      List.Forall₂ Keeps resources.routes result.routes := by
  have hreferences : ∀ {upstreams : List Upstream},
      (∀ upstream ∈ upstreams, Normalized platform upstream) →
      validateReferences platform upstreams resources = .ok result →
      (∀ upstream ∈ result.upstreams, Normalized platform upstream) ∧
        List.Forall₂ Keeps resources.routes result.routes := by
    intro upstreams hnormalized hresult
    obtain ⟨rfl, hkeeps⟩ := validateReferences_spec hresult
    exact ⟨hnormalized, hkeeps⟩
  cases version with
  | v1alpha1 =>
    simp only [validate, validateV1, bind_eq_ok] at h
    obtain ⟨_, _, _, _, _, _, _, _, _, hupstreams, routes, hroutes, hresult⟩ := h
    cases hresult
    refine ⟨normalized_of_validateUpstreams hupstreams,
      keeps_of_validateRoutes (fun index route result hroute => ?_) hroutes⟩
    simp only [validateRoute, bind_eq_ok] at hroute
    obtain ⟨_, _, _, _, hkept⟩ := hroute
    cases hkept
    exact ⟨rfl, rfl⟩
  | v1alpha2 =>
    simp only [validate, validateV2, bind_eq_ok] at h
    obtain ⟨_, _, _, _, _, _, _, hupstreams, hresult⟩ := h
    exact hreferences (normalized_of_validateUpstreams hupstreams) hresult
  | v1alpha3 | v1alpha4 =>
    simp only [validate, validateV3, bind_eq_ok, mapError_eq_ok] at h
    obtain ⟨_, _, _, _, _, _, _, hupstreams, hresult⟩ := h
    exact hreferences (normalized_of_normalize hupstreams) hresult
  | v1alpha5 | v1alpha6 =>
    simp only [validate, validateV5, bind_eq_ok, mapError_eq_ok] at h
    obtain ⟨_, _, _, _, _, hupstreams, hresult⟩ := h
    exact hreferences (normalized_of_normalize hupstreams) hresult
  | v1alpha7 =>
    simp only [validate, validateV7, validateV5, bind_eq_ok, mapError_eq_ok] at h
    obtain ⟨_, _, _, _, _, _, _, _, _, _, _, hupstreams, hresult⟩ := h
    exact hreferences (normalized_of_normalize hupstreams) hresult

end GGateway.Config
