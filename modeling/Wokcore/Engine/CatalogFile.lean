import Wokcore.Engine.Catalog

/-!
# Reading the catalog (`crates/wokcore-engine/src/catalog.rs`)

`ProviderCatalog::parse` reads a `CatalogFile` and hands it to `validate`, check by check in the
order of the source; there is no other way to a `ProviderCatalog`. The TOML reader stays outside: a
file is what it read.

What later modules use is said once, in `validate_endpoints`: the base URL of every entry of a
catalog passed `validateEndpoint` under the entry's own policy.
-/

set_option autoImplicit false

namespace Wokcore.Engine

open Wokcore.Core Lib ProviderCatalog Outcome

/-! ## Errors -/

structure CatalogError where
  code : String
deriving DecidableEq, Repr

/-! ## Endpoints -/

variable (parseUrl : UrlParser) (endpoint : String)

def validatePublicUrl : Except CatalogError Unit := do
  let url ← okOr ⟨"invalid_endpoint"⟩ (parseUrl endpoint)
  rejectIf (url.scheme != "https" || !url.username.isEmpty || url.password.isSome ||
    url.fragment.isSome) ⟨"unsafe_public_endpoint"⟩
  let host ← okOr ⟨"missing_endpoint_host"⟩ url.host
  rejectIf (isPrivateHost host) ⟨"private_public_endpoint"⟩

/-- `Ipv4Addr::is_loopback`. -/
def isLoopbackIpv4 (address : BitVec 32) : Bool := octet address 0 == 127

/-- `Ipv6Addr::is_loopback`. -/
def isLoopbackIpv6 (address : BitVec 128) : Bool := address == 1

/-- `domain.eq_ignore_ascii_case("localhost")`. -/
def isLocalhost (domain : String) : Bool := domain.toLower == "localhost"

/-- The loopback test, written out both here and in the transport. -/
def hostIsLoopback : Host → Bool
  | .domain name => isLocalhost name
  | .ipv4 address => isLoopbackIpv4 address
  | .ipv6 address => isLoopbackIpv6 address

def validateLoopbackUrl : Except CatalogError Unit := do
  let url ← okOr ⟨"invalid_endpoint"⟩ (parseUrl endpoint)
  rejectIf ((url.scheme != "http" && url.scheme != "https") || !url.username.isEmpty
      || url.password.isSome || url.fragment.isSome)
    ⟨"unsafe_loopback_endpoint"⟩
  let host ← okOr ⟨"missing_endpoint_host"⟩ url.host
  rejectIf (!hostIsLoopback host) ⟨"non_loopback_endpoint"⟩

/-- The two loops of `expand_endpoint_template`. The first argument is the placeholder that is open,
    as far as it has been read. -/
def expandTemplate : Option (List Char) → List Char → Except CatalogError (List Char)
  | none, [] => .ok []
  | some _, [] => .error ⟨"invalid_endpoint_template"⟩
  | none, c :: rest =>
      if c = '\x7b' then expandTemplate (some []) rest
      else if c = '\x7d' then .error ⟨"invalid_endpoint_template"⟩
      else (expandTemplate none rest).map (c :: ·)
  | some placeholder, c :: rest =>
      if c = '\x7d' then
        if placeholder.isEmpty then .error ⟨"invalid_endpoint_template"⟩
        else (expandTemplate none rest).map ("placeholder".toList ++ ·)
      else if c.isAlphanum || c == '_' || c == '-' then expandTemplate
        (some (placeholder ++ [c])) rest
      else .error ⟨"invalid_endpoint_template"⟩

def expandEndpointTemplate : Except CatalogError String := do
  rejectIf (!startsWith endpoint "https://") ⟨"unsafe_template_endpoint"⟩
  return .ofList (← expandTemplate none endpoint.toList)

def validateEndpoint (policy : EndpointPolicy) : Except CatalogError Unit := do
  rejectIf (endpoint.isEmpty || endpoint.utf8ByteSize > maxEndpointBytes) ⟨"invalid_endpoint"⟩
  match policy with
  | .publicHttps => validatePublicUrl parseUrl endpoint
  | .httpsTemplate => do
      let expanded ← expandEndpointTemplate endpoint
      validatePublicUrl parseUrl expanded
  | .loopbackHttp => validateLoopbackUrl parseUrl endpoint

/-! ## Models and reasoning efforts -/

def maxProviders : Nat := 256
def maxAliasesPerProvider : Nat := 32
def maxModelsPerProvider : Nat := 512
def maxLabelBytes : Nat := 256

/-- The loop over the models of an entry, and the models it has seen. -/
def collectModels : List String → Finset String → Except CatalogError (Finset String)
  | [], seen => .ok seen
  | model :: rest, seen => do
      rejectIf (isBlank model || model.utf8ByteSize > maxModelIdBytes || hasControl model
          || decide (model ∈ seen)) ⟨"invalid_model"⟩
      collectModels rest (insert model seen)

def validateModels (provider : ProviderDefinition) : Except CatalogError Unit := do
  rejectIf (provider.models.length > maxModelsPerProvider) ⟨"too_many_models"⟩
  rejectIf ((provider.modelSource == .static || provider.modelSource == .hybrid) &&
    provider.models.isEmpty) ⟨"missing_static_models"⟩
  rejectIf (provider.modelSource == .none && !provider.models.isEmpty) ⟨"unexpected_models"⟩
  let models ← collectModels provider.models ∅
  rejectIf (provider.defaultModel.any fun model =>
    decide (model ∉ models) && provider.modelSource != .live) ⟨"invalid_default_model"⟩

def isSafeReasoningValue (value : String) : Bool :=
  !value.isEmpty && value.utf8ByteSize ≤ 32
    && (bytesOf value).all fun b => isAsciiLowercase b || isAsciiDigit b || b == 45

def collectEfforts : List String → Finset String → Except CatalogError Unit
  | [], _ => .ok ()
  | effort :: rest, seen => do
      rejectIf (!isSafeReasoningValue effort || decide (effort ∈ seen)) ⟨"invalid_reasoning_effort"⟩
      collectEfforts rest (insert effort seen)

def validateReasoningMetadata (provider : ProviderDefinition) : Except CatalogError Unit := do
  rejectIf (!provider.capabilities.reasoning
      && (!provider.reasoningEfforts.isEmpty || !provider.reasoningEffortMap.isEmpty))
    ⟨"unexpected_reasoning_metadata"⟩
  rejectIf (provider.reasoningEfforts.length > 16 || provider.reasoningEffortMap.size > 32)
    ⟨"too_much_reasoning_metadata"⟩
  collectEfforts provider.reasoningEfforts ∅
  rejectIf (provider.reasoningEffortMap.toList.any fun entry =>
      !isSafeReasoningValue entry.1 || !isSafeReasoningValue entry.2)
        ⟨"invalid_reasoning_effort_map"⟩

/-! ## Entries and the whole file -/

/-- The loop over the aliases of an entry. The aliases seen so far go from entry to entry. -/
def collectAliases (canonicalIds : Finset String) :
    List String → Finset String → Except CatalogError (Finset String)
  | [], seen => .ok seen
  | name :: rest, seen => do
      rejectIf (!isValidIdentifier name) ⟨"invalid_alias"⟩
      rejectIf (decide (name ∈ canonicalIds) || decide (name ∈ seen)) ⟨"alias_collision"⟩
      collectAliases canonicalIds rest (insert name seen)

def validateProvider (canonicalIds : Finset String) (provider : ProviderDefinition)
    (seen : Finset String) : Except CatalogError (Finset String) := do
  rejectIf (isBlank provider.label || provider.label.utf8ByteSize > maxLabelBytes) ⟨"invalid_label"⟩
  rejectIf (provider.aliases.length > maxAliasesPerProvider) ⟨"too_many_aliases"⟩
  let seen ← collectAliases canonicalIds provider.aliases seen
  validateModels provider
  validateEndpoint parseUrl provider.baseUrl provider.endpointPolicy
  rejectIf (!provider.capabilities.text || !provider.capabilities.streaming)
    ⟨"invalid_capabilities"⟩
  validateReasoningMetadata provider
  return seen

def validateProviders (canonicalIds : Finset String) :
    List ProviderDefinition → Finset String → Except CatalogError Unit
  | [], _ => .ok ()
  | provider :: rest, seen => do
      let seen ← validateProvider parseUrl canonicalIds provider seen
      validateProviders canonicalIds rest seen

def collectIds : List ProviderDefinition → Finset String → Except CatalogError (Finset String)
  | [], seen => .ok seen
  | provider :: rest, seen => do
      rejectIf (!isValidIdentifier provider.id) ⟨"invalid_provider_id"⟩
      rejectIf (decide (provider.id ∈ seen)) ⟨"duplicate_provider_id"⟩
      collectIds rest (insert provider.id seen)

structure CatalogFile where
  schemaVersion : Nat
  baselineCommit : String
  providers : List ProviderDefinition

def ProviderCatalog.validate (file : CatalogFile) : Except CatalogError ProviderCatalog := do
  rejectIf (file.schemaVersion != 1) ⟨"unsupported_schema"⟩
  rejectIf (file.baselineCommit.isEmpty || file.baselineCommit.utf8ByteSize > 64
      || !(bytesOf file.baselineCommit).all fun b => isAsciiAlphanumeric b || b == 45)
    ⟨"invalid_baseline"⟩
  rejectIf (file.providers.isEmpty || file.providers.length > maxProviders)
    ⟨"invalid_provider_count"⟩
  let canonicalIds ← collectIds file.providers ∅
  validateProviders parseUrl canonicalIds file.providers ∅
  return ⟨file.providers⟩

/-! ## What a catalog guarantees -/

variable {parseUrl} {canonicalIds seen : Finset String}

theorem validateProvider_endpoint {after : Finset String} {provider : ProviderDefinition}
    (h : validateProvider parseUrl canonicalIds provider seen = .ok after) :
    validateEndpoint parseUrl provider.baseUrl provider.endpointPolicy = .ok () := by
  simp only [validateProvider, do_eq_ok] at h
  obtain ⟨_, _, _, _, _, _, _, _, _, hendpoint, _⟩ := h
  exact hendpoint

theorem validateProviders_endpoints {providers : List ProviderDefinition}
    (h : validateProviders parseUrl canonicalIds providers seen = .ok ()) :
    ∀ provider ∈ providers,
      validateEndpoint parseUrl provider.baseUrl provider.endpointPolicy = .ok () := by
  induction providers generalizing seen with
  | nil => simp
  | cons first rest ih =>
    simp only [validateProviders, do_eq_ok] at h
    obtain ⟨after, hfirst, hrest⟩ := h
    rw [List.forall_mem_cons]
    exact ⟨validateProvider_endpoint hfirst, ih hrest⟩

variable {file : CatalogFile} {catalog : ProviderCatalog}

/-- A catalog has the entries of its file. -/
theorem validate_providers (h : validate parseUrl file = .ok catalog) :
    catalog = ⟨file.providers⟩ := by
  simp only [validate, do_eq_ok] at h
  obtain ⟨_, _, _, _, _, _, _, _, _, _, hcatalog⟩ := h
  cases hcatalog
  rfl

theorem validate_of_isOk (h : (validate parseUrl file).isOk = true) :
    validate parseUrl file = .ok ⟨file.providers⟩ := by
  obtain ⟨catalog, hcatalog⟩ := exists_of_isOk h
  rw [hcatalog, validate_providers hcatalog]

/-- **Base URLs are checked.** Every entry of a catalog has a base URL its own policy accepts. -/
theorem validate_endpoints (h : validate parseUrl file = .ok catalog) :
      ∀ provider ∈ catalog.providers,
      validateEndpoint parseUrl provider.baseUrl provider.endpointPolicy = .ok () := by
  simp only [validate, do_eq_ok] at h
  obtain ⟨_, _, _, _, _, _, canonicalIds, _, _, hproviders, hcatalog⟩ := h
  cases hcatalog
  exact validateProviders_endpoints hproviders

/-- Without a brace there is no placeholder to fill in. -/
theorem expandTemplate_of_no_brace {text expanded : List Char}
    (hbrace : ∀ c ∈ text, c ≠ '\x7b' ∧ c ≠ '\x7d')
    (h : expandTemplate none text = .ok expanded) : expanded = text := by
  induction text generalizing expanded with
  | nil =>
    cases h
    rfl
  | cons c rest ih =>
    obtain ⟨hopen, hclose⟩ := hbrace c (by simp)
    rw [expandTemplate, if_neg hopen, if_neg hclose] at h
    cases hrest : expandTemplate none rest with
    | error e => rw [hrest] at h; cases h
    | ok others =>
      rw [hrest] at h
      cases h
      rw [ih (fun c hc => hbrace c (by simp [hc])) hrest]

theorem expandEndpointTemplate_of_no_brace {endpoint expanded : String}
    (hbrace : hasBrace endpoint = false) (h : expandEndpointTemplate endpoint = .ok expanded) :
    expanded = endpoint := by
  simp only [expandEndpointTemplate, do_eq_ok] at h
  obtain ⟨_, _, chars, hchars, hpure⟩ := h
  cases hpure
  have hplain : ∀ c ∈ endpoint.toList, c ≠ '\x7b' ∧ c ≠ '\x7d' := by
    simpa [hasBrace] using hbrace
  rw [expandTemplate_of_no_brace hplain hchars, String.ofList_toList]

/-- What `validate_endpoint` found in a base URL that is no template. -/
theorem validateEndpoint_inv {endpoint : String} {policy : EndpointPolicy}
    (h : validateEndpoint parseUrl endpoint policy = .ok ()) (hbrace : hasBrace endpoint = false) :
    ∃ url host, parseUrl endpoint = some url ∧ url.host = some host ∧
      if policy = .loopbackHttp then
        (url.scheme = "http" ∨ url.scheme = "https") ∧ hostIsLoopback host
      else url.scheme = "https" ∧ isPrivateHost host = false := by
  have hpublic : ∀ text, validatePublicUrl parseUrl text = .ok () →
      ∃ url host, parseUrl text = some url ∧ url.host = some host ∧
        url.scheme = "https" ∧ isPrivateHost host = false := by
    intro text htext
    simp only [validatePublicUrl, do_eq_ok, okOr_eq_ok, rejectIf_eq_ok] at htext
    obtain ⟨url, hurl, _, hsafe, host, hhost, hprivate⟩ := htext
    refine ⟨url, host, hurl, hhost, ?_, hprivate⟩
    simp only [Bool.or_eq_false_iff, bne_eq_false_iff_eq] at hsafe
    exact hsafe.1.1.1
  simp only [validateEndpoint, do_eq_ok] at h
  obtain ⟨_, _, h⟩ := h
  cases policy with
  | publicHttps =>
    simpa using hpublic endpoint h
  | httpsTemplate =>
    simp only [do_eq_ok] at h
    obtain ⟨expanded, hexpanded, h⟩ := h
    rw [expandEndpointTemplate_of_no_brace hbrace hexpanded] at h
    simpa using hpublic endpoint h
  | loopbackHttp =>
    simp only [validateLoopbackUrl, do_eq_ok, okOr_eq_ok, rejectIf_eq_ok] at h
    obtain ⟨url, hurl, _, hsafe, host, hhost, hloopback⟩ := h
    refine ⟨url, host, hurl, hhost, ?_⟩
    simp only [Bool.or_eq_false_iff, Bool.and_eq_false_iff, bne_eq_false_iff_eq] at hsafe
    rw [Bool.not_eq_eq_eq_not, Bool.not_false] at hloopback
    simpa using ⟨hsafe.1.1.1, hloopback⟩

end Wokcore.Engine
