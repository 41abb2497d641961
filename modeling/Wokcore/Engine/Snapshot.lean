import Wokcore.Engine.Catalog

/-!
# The runtime snapshot (`crates/wokcore-engine/src/snapshot.rs`)

`RuntimeSnapshot::build` validates a configuration against the catalog and compiles it into what
requests are routed with: one `RouteProvider` for each enabled instance, the aliases, the rules from
the most to the least specific, and the public model list. The build fails when an enabled instance
has an unresolved endpoint template or needs an account and has none.
-/

set_option autoImplicit false

namespace Wokcore.Engine

open Wokcore.Core ProviderInstanceConfig

variable {instance_ : ProviderInstanceConfig} {providers : ProviderConfig}

inductive EndpointAccess where
  | publicOnly
  | privateAllowed
  | loopbackOnly
deriving DecidableEq, Repr

def EndpointAccess.fromConfiguration (policy : EndpointPolicy) (allowPrivateNetwork : Bool) :
    EndpointAccess :=
  if allowPrivateNetwork then .privateAllowed
  else if policy = .loopbackHttp then .loopbackOnly
  else .publicOnly

structure RouteAccount where
  id : AccountId
  auth : AccountAuthConfig
deriving DecidableEq

structure RouteProvider where
  id : ProviderId
  catalogId : ProviderId
  endpoint : String
  endpointAccess : EndpointAccess
  adapter : AdapterFamily
  authKind : AuthKind
  capabilities : ProviderCapabilities
  accounts : List RouteAccount
  reasoningEfforts : List String
  reasoningEffortMap : Std.TreeMap String String

structure CompiledRule where
  clientId : Option ClientId
  model : Option String
  target : RouteTarget
deriving DecidableEq

def CompiledRule.fromConfig (rule : RouteRule) : CompiledRule :=
  ⟨rule.clientId, rule.model, rule.target⟩

def CompiledRule.specificity (rule : CompiledRule) : Nat :=
  rule.clientId.isSome.toNat + rule.model.isSome.toNat

structure PublicModelMetadata where
  id : String
  ownedBy : ProviderId
  capabilities : ProviderCapabilities
deriving DecidableEq

abbrev RouteProviders := Std.TreeMap ProviderId RouteProvider

abbrev ModelTable := Std.TreeMap String PublicModelMetadata

structure RuntimeSnapshot where
  providers : RouteProviders
  aliases : Std.TreeMap String RouteTarget
  rules : List CompiledRule
  default : Option RouteTarget
  publicModels : List PublicModelMetadata

inductive SnapshotError where
  | providerConfig (e : ProviderConfigError)
  | noEnabledAccount (id : ProviderId)
  | unresolvedEndpointTemplate (id : ProviderId)
deriving DecidableEq

def accountIsRequired (provider : ProviderDefinition) : Bool :=
  provider.authKind != .local && !provider.keyOptional

/-- The enabled accounts of one instance, in configuration order. -/
def enabledAccounts (providers : ProviderConfig) (id : ProviderId) : List RouteAccount :=
  (providers.accounts.filter fun account => account.enabled && account.provider == id).map
    fun account => ⟨account.id, account.auth⟩

/-- The body of the loop of `build_runtime_providers`. -/
def buildProvider (providers : ProviderConfig) (instance_ : ProviderInstanceConfig)
    (definition : ProviderDefinition) : Except SnapshotError RouteProvider :=
  let endpoint := instance_.endpoint.getD definition.baseUrl
  let accounts := enabledAccounts providers instance_.id
  if hasBrace endpoint then .error (.unresolvedEndpointTemplate instance_.id)
  else if accounts.isEmpty && accountIsRequired definition
    then .error (.noEnabledAccount instance_.id)
  else
    .ok
      { id := instance_.id
        catalogId := instance_.catalogId
        endpoint := endpoint
        endpointAccess := .fromConfiguration definition.endpointPolicy instance_.allowPrivateNetwork
        adapter := definition.adapter
        authKind := definition.authKind
        capabilities := definition.capabilities
        accounts := accounts
        reasoningEfforts := definition.reasoningEfforts
        reasoningEffortMap := definition.reasoningEffortMap }

/-- The loop of `build_runtime_providers`. The source `expect`s the catalog entry; validation has
    found it (`validateProviderConfiguration_inv`), so the first branch is never taken. -/
def buildRuntimeProviders (catalog : ProviderCatalog) (providers : ProviderConfig) :
    List ProviderInstanceConfig → RouteProviders → Except SnapshotError RouteProviders
  | [], runtime => .ok runtime
  | instance_ :: rest, runtime =>
      match catalog.provider instance_.catalogId.text with
      | none => .error (.providerConfig .unknownCatalogProvider)
      | some definition =>
          match buildProvider providers instance_ definition with
          | .error e => .error e
          | .ok provider =>
            buildRuntimeProviders catalog providers rest (runtime.insert instance_.id provider)

def publicModel (id : String) (provider : RouteProvider) : PublicModelMetadata :=
  ⟨id, provider.id, provider.capabilities⟩

/-- `models.entry(id).or_insert_with(|| public_model(id, provider))`. -/
def offerModel (models : ModelTable) (id : String) (provider : RouteProvider) : ModelTable :=
  models.insertIfNew id (publicModel id provider)

/-- The models a provider's catalog entry lists, its default last. -/
def catalogModels (catalog : ProviderCatalog) (provider : RouteProvider) : List String :=
  match catalog.provider provider.catalogId.text with
  | none => []
  | some definition => definition.models ++ definition.defaultModel.toList

def buildPublicModels (catalog : ProviderCatalog) (providers : RouteProviders)
    (routing : RoutingConfig) :
    List PublicModelMetadata :=
  let models := providers.values.foldl
    (fun models provider =>
      (catalogModels catalog provider).foldl (fun models id => offerModel models id provider)
        models) {}
  let models := routing.aliases.foldl
    (fun models entry =>
      match providers[entry.target.provider]? with
      | none => models
      | some provider =>
        models.insert entry.aliasName (publicModel entry.aliasName provider)) models
  let models := routing.rules.foldl
    (fun models rule =>
      match rule.model, providers[rule.target.provider]? with
      | some model, some provider => offerModel models model provider
      | _, _ => models) models
  let models :=
    match routing.default with
    | none => models
    | some target =>
        match providers[target.provider]? with
        | none => models
        | some provider => offerModel models target.model provider
  models.values

namespace RuntimeSnapshot

def providerCount (s : RuntimeSnapshot) : Nat := s.providers.size

def build (parseUrl : UrlParser) (catalog : ProviderCatalog) (providers : ProviderConfig)
    (routing : RoutingConfig) : Except SnapshotError RuntimeSnapshot :=
  match validateProviderConfiguration parseUrl catalog providers routing with
  | .error e => .error (.providerConfig e)
  | .ok _ =>
      match buildRuntimeProviders catalog providers
          (providers.instances.filter enabled) {} with
      | .error e => .error e
      | .ok runtimeProviders =>
          .ok
            { providers := runtimeProviders
              aliases := routing.aliases.foldl
                (fun m entry => m.insert entry.aliasName entry.target) {}
              -- `sort_by_key(Reverse(specificity))` is stable, and so is insertion sort.
              rules := (routing.rules.map CompiledRule.fromConfig).insertionSort
                fun left right => right.specificity ≤ left.specificity
              default := routing.default
              publicModels := buildPublicModels catalog runtimeProviders routing }

end RuntimeSnapshot

/-! ## What a snapshot consists of -/

/-- The provider that an instance is compiled into. -/
def BuiltFrom (catalog : ProviderCatalog) (providers : ProviderConfig)
    (instance_ : ProviderInstanceConfig) (provider : RouteProvider) : Prop :=
  ∃ definition, catalog.provider instance_.catalogId.text = some definition ∧
    buildProvider providers instance_ definition = .ok provider

theorem buildProvider_inv {definition : ProviderDefinition} {provider : RouteProvider}
    (h : buildProvider providers instance_ definition = .ok provider) :
    hasBrace (instance_.endpoint.getD definition.baseUrl) = false ∧ provider =
      { id := instance_.id
        catalogId := instance_.catalogId
        endpoint := instance_.endpoint.getD definition.baseUrl
        endpointAccess := .fromConfiguration definition.endpointPolicy instance_.allowPrivateNetwork
        adapter := definition.adapter
        authKind := definition.authKind
        capabilities := definition.capabilities
        accounts := enabledAccounts providers instance_.id
        reasoningEfforts := definition.reasoningEfforts
        reasoningEffortMap := definition.reasoningEffortMap } := by
  simp only [buildProvider] at h
  split at h
  · cases h
  next hbrace =>
  split at h
  · cases h
  cases h
  exact ⟨by simpa using hbrace, rfl⟩

theorem BuiltFrom.id_eq {catalog : ProviderCatalog} {provider : RouteProvider}
    (h : BuiltFrom catalog providers instance_ provider) : provider.id = instance_.id := by
  obtain ⟨definition, _, hbuild⟩ := h
  rw [(buildProvider_inv hbuild).2]

/-- The loop leaves what each instance was compiled into, and what was there before elsewhere. -/
theorem buildRuntimeProviders_getElem? {catalog : ProviderCatalog}
    {instances : List ProviderInstanceConfig} {before after : RouteProviders}
    (h : buildRuntimeProviders catalog providers instances before = .ok after)
    (hnd : (instances.map ProviderInstanceConfig.id).Nodup) (id : ProviderId) :
    (∀ instance_ ∈ instances, instance_.id = id →
        ∃ provider, after[id]? = some provider ∧ BuiltFrom catalog providers instance_ provider) ∧
      ((∀ instance_ ∈ instances, instance_.id ≠ id) → after[id]? = before[id]?) := by
  induction instances generalizing before with
  | nil =>
    cases h
    simp
  | cons first rest ih =>
    rw [buildRuntimeProviders] at h
    split at h
    · cases h
    next definition hdef =>
    split at h
    · cases h
    next provider hbuild =>
    rw [List.map_cons, List.nodup_cons] at hnd
    obtain ⟨hmem, hother⟩ := ih h hnd.2
    constructor
    · rw [List.forall_mem_cons]
      refine ⟨?_, hmem⟩
      intro hid
      -- No later instance has this identifier, so the provider inserted here is the one that stays.
      have hlast : ∀ instance_ ∈ rest, instance_.id ≠ id := by
        intro instance_ hin heq
        exact hnd.1 (List.mem_map.mpr ⟨instance_, hin, heq.trans hid.symm⟩)
      refine ⟨provider, ?_, definition, hdef, hbuild⟩
      rw [hother hlast, ← hid, Std.TreeMap.getElem?_insert_self]
    · intro hnone
      rw [List.forall_mem_cons] at hnone
      rw [hother hnone.2, Std.TreeMap.getElem?_insert, if_neg]
      rw [compare_eq_iff_eq]
      exact hnone.1

namespace RuntimeSnapshot

variable {parseUrl : UrlParser} {catalog : ProviderCatalog} {providers : ProviderConfig}
  {routing : RoutingConfig} {s : RuntimeSnapshot}

variable (h : build parseUrl catalog providers routing = .ok s)
include h

/-- What `build` has done when it succeeds. -/
theorem build_inv :
    (∃ v, validateProviderConfiguration parseUrl catalog providers routing = .ok v) ∧
      ∃ runtimeProviders, buildRuntimeProviders catalog providers
          (providers.instances.filter enabled) {} = .ok runtimeProviders ∧
        s =
          { providers := runtimeProviders
            aliases := routing.aliases.foldl (fun m entry => m.insert entry.aliasName entry.target)
              {}
            rules := (routing.rules.map CompiledRule.fromConfig).insertionSort
              fun left right => right.specificity ≤ left.specificity
            default := routing.default
            publicModels := buildPublicModels catalog runtimeProviders routing } := by
  unfold build at h
  split at h
  · cases h
  next v hvalid =>
  split at h
  · cases h
  next runtimeProviders hproviders =>
  cases h
  exact ⟨⟨v, hvalid⟩, runtimeProviders, hproviders, rfl⟩

/-- A configuration a snapshot was built from has a valid shape. -/
theorem build_shape : ValidShape providers routing := by
  obtain ⟨⟨v, hvalid⟩, _⟩ := build_inv h
  exact validateShape_inv (validateProviderConfiguration_inv hvalid).1

/-- A configuration a snapshot was built from has at most 256 accounts, all distinct. -/
theorem build_accounts :
    (providers.accounts.map AccountConfig.id).Nodup ∧
      providers.accounts.length ≤ Core.maxAccounts :=
  ⟨(build_shape h).accounts, (build_shape h).accountCount⟩

theorem nodup_enabled :
    ((providers.instances.filter ProviderInstanceConfig.enabled).map
      ProviderInstanceConfig.id).Nodup :=
  (build_shape h).instances.sublist (List.filter_sublist.map _)

/-- **The providers of a snapshot.** They are what the enabled instances are compiled into. -/
theorem build_provider {id : ProviderId} {provider : RouteProvider} :
    s.providers[id]? = some provider ↔ ∃ instance_ ∈ providers.instances,
      instance_.enabled = true ∧ instance_.id = id ∧
      BuiltFrom catalog providers instance_ provider := by
  obtain ⟨_, runtimeProviders, hproviders, rfl⟩ := build_inv h
  obtain ⟨hmem, hother⟩ := buildRuntimeProviders_getElem? hproviders (nodup_enabled h) id
  constructor
  · intro hget
    by_cases hin : ∃ instance_ ∈ providers.instances.filter enabled,
        instance_.id = id
    · obtain ⟨instance_, hfilter, hid⟩ := hin
      obtain ⟨built, hbuilt, hfrom⟩ := hmem instance_ hfilter hid
      have hsame : built = provider := Option.some.inj (hbuilt.symm.trans hget)
      rw [List.mem_filter] at hfilter
      exact ⟨instance_, hfilter.1, hfilter.2, hid, hsame ▸ hfrom⟩
    · have hnone := hother fun instance_ hfilter hid => hin ⟨instance_, hfilter, hid⟩
      rw [show (_ : Option RouteProvider) = none from hnone] at hget
      cases hget
  · rintro ⟨instance_, hin, henabled, hid, hfrom⟩
    obtain ⟨built, hbuilt, definition, hdef, hbuild⟩ :=
      hmem instance_ (List.mem_filter.mpr ⟨hin, henabled⟩) hid
    obtain ⟨definition', hdef', hbuild'⟩ := hfrom
    rw [hdef] at hdef'
    cases hdef'
    rw [hbuild] at hbuild'
    cases hbuild'
    exact hbuilt

/-- Every enabled instance has its provider. -/
theorem build_enabled (hin : instance_ ∈ providers.instances)
    (henabled : instance_.enabled = true) :
    ∃ provider, s.providers[instance_.id]? = some provider ∧
      BuiltFrom catalog providers instance_ provider := by
  obtain ⟨_, runtimeProviders, hproviders, rfl⟩ := build_inv h
  exact (buildRuntimeProviders_getElem? hproviders (nodup_enabled h) instance_.id).1 instance_
    (List.mem_filter.mpr ⟨hin, henabled⟩) rfl

/-! ## One provider -/

def apiKeyDefinition : ProviderDefinition where
  id := "openai-apikey"
  label := "OpenAI API"
  adapter := .openAiResponses
  baseUrl := "https://api.openai.com/v1"
  authKind := .key
  endpointPolicy := .publicHttps
  modelSource := .hybrid
  aliases := []
  models := ["gpt-5.5"]
  defaultModel := none
  allowEndpointOverride := false
  keyOptional := false
  allowKeyAuthOverride := false
  reasoningEfforts := []
  reasoningEffortMap := {}
  capabilities := ⟨true, true, true, true, true, true, false⟩

def primaryId : ProviderId := ⟨"primary", by decide⟩

/-- One instance of the entry with one account. -/
def primaryConfig : ProviderConfig where
  instances := [⟨primaryId, ⟨"openai-apikey", by decide⟩, true, none, false⟩]
  accounts := [⟨⟨"primary-key", by decide⟩, primaryId, true,
    .apiKey ⟨"secret:00000000-0000-4000-8000-000000000001"⟩⟩]

end RuntimeSnapshot

end Wokcore.Engine
