import Wokcore.Core.Config

/-!
# The provider catalog and configuration validation

`crates/wokcore-engine/src/catalog.rs` and `config.rs`: the catalog entries a configuration refers
to, the private-host test, and `validate_provider_configuration`, which runs the shape check and
then holds every instance and account against its catalog entry. The bundled catalog is data, so the
catalog is a parameter; the checks the catalog itself goes through when it is parsed are in
`CatalogFile`.
-/

set_option autoImplicit false

namespace Wokcore.Engine

open Wokcore.Core

/-! ## Catalog data -/

inductive AdapterFamily where
  | openAiResponses
  | openAiChat
  | anthropic
  | google
  | azureOpenAi
  | cursor
  | kiro
  | mimoFree
deriving DecidableEq, Repr

inductive AuthKind where
  | forward
  | oauth
  | key
  | local
deriving DecidableEq, Repr

inductive EndpointPolicy where
  | publicHttps
  | httpsTemplate
  | loopbackHttp
deriving DecidableEq, Repr

inductive ModelSourceKind where
  | none
  | static
  | live
  | hybrid
deriving DecidableEq, Repr

structure ProviderCapabilities where
  text : Bool
  streaming : Bool
  tools : Bool
  vision : Bool
  images : Bool
  reasoning : Bool
  countTokens : Bool
deriving DecidableEq, Repr

structure ProviderDefinition where
  id : String
  label : String
  adapter : AdapterFamily
  baseUrl : String
  authKind : AuthKind
  endpointPolicy : EndpointPolicy
  modelSource : ModelSourceKind
  aliases : List String
  models : List String
  defaultModel : Option String
  allowEndpointOverride : Bool
  keyOptional : Bool
  allowKeyAuthOverride : Bool
  reasoningEfforts : List String
  reasoningEffortMap : Std.TreeMap String String
  capabilities : ProviderCapabilities

structure ProviderCatalog where
  providers : List ProviderDefinition

def ProviderCatalog.provider (catalog : ProviderCatalog) (id : String) :
    Option ProviderDefinition :=
  catalog.providers.find? fun p => p.id == id

/-! ## Private hosts -/

/-- Octet `i` of an address, the most significant first. -/
def octet {w : Nat} (address : BitVec w) (i : Nat) : Nat :=
  (address.extractLsb' (w - 8 - 8 * i) 8).toNat

def isPrivateIpv4 (address : BitVec 32) : Bool :=
  let a := octet address 0
  let b := octet address 1
  let c := octet address 2
  -- is_private, is_loopback, is_link_local, is_broadcast
  a == 10 || (a == 172 && 16 ≤ b && b ≤ 31) || (a == 192 && b == 168)
    || a == 127 || (a == 169 && b == 254) || address == BitVec.allOnes 32
    -- is_documentation, is_unspecified, is_multicast, and the whole of 0.0.0.0/8
    || (a == 192 && b == 0 && c == 2) || (a == 198 && b == 51 && c == 100)
    || (a == 203 && b == 0 && c == 113) || address == 0 || (224 ≤ a && a ≤ 239) || a == 0

variable (address : BitVec 128)

/-- `Ipv6Addr::to_ipv4_mapped`: the `::ffff:0:0/96` block. -/
def toIpv4Mapped : Option (BitVec 32) :=
  if address.extractLsb' 32 96 = 0xffff#96 then some (address.extractLsb' 0 32) else none

def isIpv6UniqueLocal : Bool := octet address 0 &&& 0xfe == 0xfc

def isIpv6LinkLocal : Bool :=
  octet address 0 == 0xfe && octet address 1 &&& 0xc0 == 0x80

def isPrivateIpv6 : Bool :=
  (toIpv4Mapped address).any isPrivateIpv4
    || address == 1 || address == 0 || octet address 0 == 0xff
    || isIpv6UniqueLocal address || isIpv6LinkLocal address

def isPrivateHost : Host → Bool
  | .domain name =>
      let domain := name.toLower
      domain == "localhost" || endsWith domain ".localhost" || endsWith domain ".local"
        || endsWith domain ".internal"
  | .ipv4 address => isPrivateIpv4 address
  | .ipv6 address => isPrivateIpv6 address

/-! ## `validate_provider_configuration` -/

/-- `ProviderConfigError`. The eleven variants it shares by name with `ConfigShapeError`, which
    `map_shape_error` copies one to one, are wrapped as `shape`. -/
inductive ProviderConfigError where
  | shape (e : ConfigShapeError)
  | unknownCatalogProvider
  | endpointOverrideNotAllowed
  | privateNetworkOptInRequired
  | insecurePublicEndpoint
  | authenticationMismatch
deriving DecidableEq, Repr

/-- `EndpointClass`, `Public` and `Private` in the source. -/
inductive EndpointClass where
  | publicNetwork
  | privateNetwork
deriving DecidableEq, Repr

variable (parseUrl : UrlParser)

def classifyEndpointOverride (endpoint : String) : Except ProviderConfigError EndpointClass :=
  if endpoint.isEmpty || endpoint.utf8ByteSize > maxEndpointBytes || hasBrace endpoint then
    .error (.shape .invalidEndpoint)
  else
    match parseUrl endpoint with
    | none => .error (.shape .invalidEndpoint)
    | some url =>
        if !url.username.isEmpty || url.password.isSome || url.query.isSome ||
            url.fragment.isSome then
          .error (.shape .invalidEndpoint)
        else
          match url.host with
          | none => .error (.shape .invalidEndpoint)
          | some host =>
              if isPrivateHost host then
                if url.scheme != "http" && url.scheme != "https" then
                  .error (.shape .invalidEndpoint)
                else .ok .privateNetwork
              else if url.scheme != "https" then .error .insecurePublicEndpoint
              else .ok .publicNetwork

/-- The checks on an endpoint override. -/
def validateOverride (instance_ : ProviderInstanceConfig) (definition : ProviderDefinition) :
    Except ProviderConfigError Unit :=
  match instance_.endpoint with
  | none => .ok ()
  | some endpoint =>
      if !definition.allowEndpointOverride then .error .endpointOverrideNotAllowed
      else
        match classifyEndpointOverride parseUrl endpoint with
        | .error e => .error e
        | .ok .publicNetwork => .ok ()
        | .ok .privateNetwork =>
            if instance_.allowPrivateNetwork then .ok () else .error .privateNetworkOptInRequired

def validateInstances (catalog : ProviderCatalog) :
    List ProviderInstanceConfig → Std.TreeMap ProviderId ProviderDefinition →
      Except ProviderConfigError (Std.TreeMap ProviderId ProviderDefinition)
  | [], validated => .ok validated
  | instance_ :: rest, validated =>
      match catalog.provider instance_.catalogId.text with
      | none => .error .unknownCatalogProvider
      | some definition =>
          match validateOverride parseUrl instance_ definition with
          | .error e => .error e
          | .ok () => validateInstances catalog rest (validated.insert instance_.id definition)

def authenticationMatches (provider : ProviderDefinition) (account : AccountAuthConfig) : Bool :=
  match provider.authKind, account with
  | .forward, .forward _ => true
  | .oauth, .oauth _ _ => true
  | .key, .apiKey _ => true
  | .local, .local => true
  | .oauth, .apiKey _ => provider.allowKeyAuthOverride
  | .key, .local => provider.keyOptional
  | _, _ => false

def validateAccounts (instances : Std.TreeMap ProviderId ProviderDefinition) :
    List AccountConfig → Except ProviderConfigError Unit
  | [] => .ok ()
  | account :: rest =>
      match instances[account.provider]? with
      | none => .error (.shape .unknownAccountProvider)
      | some definition =>
          if !authenticationMatches definition account.auth then .error .authenticationMismatch
          else validateAccounts instances rest

structure ValidatedProviderConfig where
  providerCount : Nat
  accountCount : Nat
  routeCount : Nat
deriving DecidableEq, Repr

def validateProviderConfiguration (catalog : ProviderCatalog) (providers : ProviderConfig)
    (routing : RoutingConfig) : Except ProviderConfigError ValidatedProviderConfig :=
  match validateProviderConfigurationShape parseUrl providers routing with
  | .error e => .error (.shape e)
  | .ok () =>
      match validateInstances parseUrl catalog providers.instances {} with
      | .error e => .error e
      | .ok instances =>
          match validateAccounts instances providers.accounts with
          | .error e => .error e
          | .ok () =>
              .ok
                { providerCount := providers.instances.length
                  accountCount := providers.accounts.length
                  routeCount := routing.aliases.length + routing.rules.length
                    + routing.default.toList.length }

variable {parseUrl} {catalog : ProviderCatalog}

/-- Every instance of a validated configuration has its catalog entry and passed the checks on its
    endpoint. -/
theorem validateInstances_inv {instances : List ProviderInstanceConfig}
    {validated result : Std.TreeMap ProviderId ProviderDefinition}
    (h : validateInstances parseUrl catalog instances validated = .ok result) :
    ∀ instance_ ∈ instances, ∃ definition, catalog.provider instance_.catalogId.text =
      some definition ∧ validateOverride parseUrl instance_ definition = .ok () := by
  induction instances generalizing validated with
  | nil => simp
  | cons first rest ih =>
    rw [validateInstances] at h
    split at h
    · cases h
    next definition hdef =>
    split at h
    · cases h
    next hoverride =>
    rw [List.forall_mem_cons]
    exact ⟨⟨definition, hdef, hoverride⟩, ih h⟩

theorem validateProviderConfiguration_inv {providers : ProviderConfig} {routing : RoutingConfig}
    {v : ValidatedProviderConfig}
    (h : validateProviderConfiguration parseUrl catalog providers routing = .ok v) :
    validateProviderConfigurationShape parseUrl providers routing = .ok () ∧
      ∀ instance_ ∈ providers.instances, ∃ definition,
        catalog.provider instance_.catalogId.text = some definition ∧
          validateOverride parseUrl instance_ definition = .ok () := by
  unfold validateProviderConfiguration at h
  split at h
  · cases h
  next hshape =>
  split at h
  · cases h
  next hinst => exact ⟨hshape, validateInstances_inv hinst⟩

/-- What the checks on an override have found when they succeed. -/
theorem validateOverride_inv {instance_ : ProviderInstanceConfig} {definition : ProviderDefinition}
    {endpoint : String} (h : validateOverride parseUrl instance_ definition = .ok ())
    (hendpoint : instance_.endpoint = some endpoint) :
    ∃ url host, parseUrl endpoint = some url ∧ url.host = some host ∧
      if isPrivateHost host then
        (url.scheme = "http" ∨ url.scheme = "https") ∧ instance_.allowPrivateNetwork = true
      else url.scheme = "https" := by
  rw [validateOverride, hendpoint] at h
  simp only at h
  split at h
  · cases h
  cases hclass : classifyEndpointOverride parseUrl endpoint with
  | error e => rw [hclass] at h; cases h
  | ok class_ =>
    rw [hclass] at h
    unfold classifyEndpointOverride at hclass
    split at hclass
    · cases hclass
    split at hclass
    · cases hclass
    next url hurl =>
    split at hclass
    · cases hclass
    split at hclass
    · cases hclass
    next host hhost =>
    refine ⟨url, host, hurl, hhost, ?_⟩
    split at hclass
    next hprivate =>
      split at hclass
      · cases hclass
      next hscheme =>
      cases hclass
      rw [if_pos hprivate]
      simp only [ite_eq_left_iff, reduceCtorEq, imp_false, Bool.not_eq_true, Bool.not_eq_false] at h
      refine ⟨?_, h⟩
      simpa [← Classical.or_iff_not_imp_left] using hscheme
    next hpublic =>
      split at hclass
      · cases hclass
      next hscheme =>
      rw [if_neg hpublic]
      simpa using hscheme

end Wokcore.Engine
