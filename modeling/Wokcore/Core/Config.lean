import Wokcore.Lib.Outcome
import Wokcore.Lib.Precedence
import Wokcore.Core.Id
import Wokcore.Core.Url

/-!
# The configuration and its shape (`crates/wokcore-core/src/config.rs`)

The data a provider configuration consists of and `validate_provider_configuration_shape`, check by
check in the order of the source. What later modules use of it is `ValidShape`: in a configuration
that passed, no two instances, accounts or aliases have the same name, and there are at most 256
accounts; and `validateShape_known`: whatever it routes to is one of its instances.
-/

set_option autoImplicit false

namespace Wokcore.Core

open Lib

variable {providerIds seen : Finset ProviderId}

/-! ## Data -/

/-- A reference into the secret store. Its text is opaque here: references are only compared. -/
structure SecretRef where
  text : String
deriving DecidableEq, Repr

structure ProviderInstanceConfig where
  id : ProviderId
  catalogId : ProviderId
  enabled : Bool
  endpoint : Option String
  allowPrivateNetwork : Bool
deriving DecidableEq

inductive AccountAuthConfig where
  | forward (credential : SecretRef)
  | oauth (access : SecretRef) (refresh : Option SecretRef)
  | apiKey (secret : SecretRef)
  | local
deriving DecidableEq, Repr

structure AccountConfig where
  id : AccountId
  provider : ProviderId
  enabled : Bool
  auth : AccountAuthConfig
deriving DecidableEq

structure ProviderConfig where
  instances : List ProviderInstanceConfig := []
  accounts : List AccountConfig := []
deriving DecidableEq

structure RouteTarget where
  provider : ProviderId
  model : String
deriving DecidableEq

/-- `ModelAlias`; its field `alias` is `aliasName` here, `alias` being a keyword. -/
structure ModelAlias where
  aliasName : String
  target : RouteTarget
deriving DecidableEq

structure RouteRule where
  clientId : Option ClientId
  model : Option String
  target : RouteTarget
deriving DecidableEq

structure RoutingConfig where
  aliases : List ModelAlias := []
  rules : List RouteRule := []
  default : Option RouteTarget := none
deriving DecidableEq

/-! ## Shape -/

def maxProviderInstances : Nat := 64
def maxAccounts : Nat := 256
def maxModelAliases : Nat := 1024
def maxRouteRules : Nat := 1024
def maxModelIdBytes : Nat := 256
def maxEndpointBytes : Nat := 2048

inductive ConfigShapeError where
  | providerLimitExceeded
  | accountLimitExceeded
  | aliasLimitExceeded
  | routeRuleLimitExceeded
  | duplicateProvider
  | duplicateAccount
  | unknownAccountProvider
  | invalidEndpoint
  | duplicateAlias
  | invalidModel
  | unknownRouteProvider
deriving DecidableEq, Repr

def validateModel (model : String) : Except ConfigShapeError Unit :=
  if isBlank model || model.utf8ByteSize > maxModelIdBytes || hasControl model then
    .error .invalidModel
  else .ok ()

def validateTarget (target : RouteTarget) (providerIds : Finset ProviderId) :
    Except ConfigShapeError Unit :=
  if target.provider ∉ providerIds then .error .unknownRouteProvider
  else validateModel target.model

def validateEndpointShape (parseUrl : UrlParser) (endpoint : String) :
    Except ConfigShapeError Unit :=
  if endpoint.isEmpty || endpoint.utf8ByteSize > maxEndpointBytes || hasBrace endpoint then
    .error .invalidEndpoint
  else
    match parseUrl endpoint with
    | none => .error .invalidEndpoint
    | some url =>
        if (url.scheme != "http" && url.scheme != "https")
            || !url.username.isEmpty || url.password.isSome || url.query.isSome
            || url.fragment.isSome || url.host.isNone then
          .error .invalidEndpoint
        else .ok ()

/-- The first loop: the identifiers seen so far, which later loops look targets up in. -/
def collectProviders (parseUrl : UrlParser) :
    List ProviderInstanceConfig → Finset ProviderId → Except ConfigShapeError (Finset ProviderId)
  | [], seen => .ok seen
  | provider :: rest, seen =>
      if provider.id ∈ seen then .error .duplicateProvider
      else
        match provider.endpoint with
        | none => collectProviders parseUrl rest (insert provider.id seen)
        | some endpoint =>
            match validateEndpointShape parseUrl endpoint with
            | .error e => .error e
            | .ok () => collectProviders parseUrl rest (insert provider.id seen)

def checkAccounts (providerIds : Finset ProviderId) :
    List AccountConfig → Finset AccountId → Except ConfigShapeError Unit
  | [], _ => .ok ()
  | account :: rest, seen =>
      if account.id ∈ seen then .error .duplicateAccount
      else if account.provider ∉ providerIds then .error .unknownAccountProvider
      else checkAccounts providerIds rest (insert account.id seen)

def checkAliases (providerIds : Finset ProviderId) :
    List ModelAlias → Finset String → Except ConfigShapeError Unit
  | [], _ => .ok ()
  | entry :: rest, seen =>
      match validateModel entry.aliasName with
      | .error e => .error e
      | .ok () =>
          if entry.aliasName ∈ seen then .error .duplicateAlias
          else
            match validateTarget entry.target providerIds with
            | .error e => .error e
            | .ok () => checkAliases providerIds rest (insert entry.aliasName seen)

def checkRules (providerIds : Finset ProviderId) : List RouteRule → Except ConfigShapeError Unit
  | [] => .ok ()
  | rule :: rest =>
      match rule.model.elim (.ok ()) validateModel with
      | .error e => .error e
      | .ok () =>
          match validateTarget rule.target providerIds with
          | .error e => .error e
          | .ok () => checkRules providerIds rest

def validateProviderConfigurationShape (parseUrl : UrlParser) (providers : ProviderConfig)
    (routing : RoutingConfig) : Except ConfigShapeError Unit :=
  if providers.instances.length > maxProviderInstances then .error .providerLimitExceeded
  else if providers.accounts.length > maxAccounts then .error .accountLimitExceeded
  else if routing.aliases.length > maxModelAliases then .error .aliasLimitExceeded
  else if routing.rules.length > maxRouteRules then .error .routeRuleLimitExceeded
  else do
    let providerIds ← collectProviders parseUrl providers.instances ∅
    checkAccounts providerIds providers.accounts ∅
    checkAliases providerIds routing.aliases ∅
    checkRules providerIds routing.rules
    routing.default.elim (.ok ()) fun target => validateTarget target providerIds

/-! ## What a valid shape guarantees -/

theorem checkAccounts_nodup {accounts : List AccountConfig} {seen : Finset AccountId}
    (h : checkAccounts providerIds accounts seen = .ok ()) :
    (accounts.map AccountConfig.id).Nodup ∧ ∀ account ∈ accounts, account.id ∉ seen := by
  induction accounts generalizing seen with
  | nil => exact ⟨List.nodup_nil, by simp⟩
  | cons account rest ih =>
    rw [checkAccounts] at h
    split at h
    · cases h
    next hnew =>
    split at h
    · cases h
    exact nodup_of_insert hnew (ih h)

theorem collectProviders_cons {parseUrl : UrlParser} {provider : ProviderInstanceConfig}
    {rest : List ProviderInstanceConfig}
    (h : collectProviders parseUrl (provider :: rest) seen = .ok providerIds) :
    provider.id ∉ seen ∧ collectProviders parseUrl rest (insert provider.id seen) =
      .ok providerIds := by
  rw [collectProviders] at h
  split at h
  · cases h
  next hnew =>
  refine ⟨hnew, ?_⟩
  split at h
  · exact h
  · split at h
    · cases h
    · exact h

theorem collectProviders_nodup {parseUrl : UrlParser} {instances : List ProviderInstanceConfig}
    (h : collectProviders parseUrl instances seen = .ok providerIds) :
    (instances.map ProviderInstanceConfig.id).Nodup ∧ ∀ provider ∈ instances,
    provider.id ∉ seen := by
  induction instances generalizing seen with
  | nil => exact ⟨List.nodup_nil, by simp⟩
  | cons provider rest ih =>
    obtain ⟨hnew, hrest⟩ := collectProviders_cons h
    exact nodup_of_insert hnew (ih hrest)

/-- What was collected are identifiers of instances. -/
theorem collectProviders_known {parseUrl : UrlParser} {instances : List ProviderInstanceConfig}
    (h : collectProviders parseUrl instances seen = .ok providerIds) :
    ∀ id ∈ providerIds, id ∈ seen ∨ id ∈ instances.map ProviderInstanceConfig.id := by
  induction instances generalizing seen with
  | nil =>
    cases h
    exact fun id hin => .inl hin
  | cons provider rest ih =>
    intro id hin
    have hseen := ih (collectProviders_cons h).2 id hin
    rw [Finset.mem_insert] at hseen
    rw [List.map_cons, List.mem_cons]
    tauto

theorem checkAliases_nodup {aliases : List ModelAlias} {seen : Finset String}
    (h : checkAliases providerIds aliases seen = .ok ()) :
    (aliases.map ModelAlias.aliasName).Nodup ∧ ∀ entry ∈ aliases, entry.aliasName ∉ seen := by
  induction aliases generalizing seen with
  | nil => exact ⟨List.nodup_nil, by simp⟩
  | cons entry rest ih =>
    rw [checkAliases] at h
    split at h
    · cases h
    split at h
    · cases h
    next hnew =>
    split at h
    · cases h
    exact nodup_of_insert hnew (ih h)

theorem validateTarget_known {target : RouteTarget}
    (h : validateTarget target providerIds = .ok ()) :
    target.provider ∈ providerIds := by
  rw [validateTarget] at h
  split at h
  · cases h
  next hin => exact not_not.mp hin

theorem checkAliases_known {aliases : List ModelAlias} {seen : Finset String}
    (h : checkAliases providerIds aliases seen = .ok ()) :
    ∀ entry ∈ aliases, entry.target.provider ∈ providerIds := by
  induction aliases generalizing seen with
  | nil => simp
  | cons entry rest ih =>
    rw [checkAliases] at h
    split at h
    · cases h
    split at h
    · cases h
    split at h
    · cases h
    next htarget => exact List.forall_mem_cons.mpr ⟨validateTarget_known htarget, ih h⟩

theorem checkRules_known {rules : List RouteRule} (h : checkRules providerIds rules = .ok ()) :
    ∀ rule ∈ rules, rule.target.provider ∈ providerIds := by
  induction rules with
  | nil => simp
  | cons rule rest ih =>
    rw [checkRules] at h
    split at h
    · cases h
    split at h
    · cases h
    next htarget => exact List.forall_mem_cons.mpr ⟨validateTarget_known htarget, ih h⟩

/-- What `validate_provider_configuration_shape` has found when it succeeds. -/
structure ValidShape (providers : ProviderConfig) (routing : RoutingConfig) : Prop where
  accounts : (providers.accounts.map AccountConfig.id).Nodup
  accountCount : providers.accounts.length ≤ maxAccounts
  instances : (providers.instances.map ProviderInstanceConfig.id).Nodup
  aliases : (routing.aliases.map ModelAlias.aliasName).Nodup

section

variable {parseUrl : UrlParser} {providers : ProviderConfig} {routing : RoutingConfig}
  (h : validateProviderConfigurationShape parseUrl providers routing = .ok ())
include h

theorem validateShape_eq_ok :
    providers.accounts.length ≤ maxAccounts ∧ ∃ providerIds,
      collectProviders parseUrl providers.instances ∅ = .ok providerIds ∧
      checkAccounts providerIds providers.accounts ∅ = .ok () ∧
      checkAliases providerIds routing.aliases ∅ = .ok () ∧ checkRules providerIds routing.rules =
      .ok () ∧ routing.default.elim (.ok ()) (fun target => validateTarget target providerIds) =
        .ok () := by
  unfold validateProviderConfigurationShape at h
  split at h
  · cases h
  split at h
  · cases h
  next hlen =>
  split at h
  · cases h
  split at h
  · cases h
  simp only [Outcome.do_eq_ok, Outcome.exists_unit] at h
  exact ⟨not_lt.mp hlen, h⟩

theorem validateShape_inv : ValidShape providers routing := by
  obtain ⟨hlen, providerIds, hp, ha, hn, _⟩ := validateShape_eq_ok h
  exact ⟨(checkAccounts_nodup ha).1, hlen, (collectProviders_nodup hp).1, (checkAliases_nodup hn).1⟩

/-- The target of an alias, of a rule or of the default belongs to an instance. -/
theorem validateShape_known {target : RouteTarget}
    (htarget : (∃ entry ∈ routing.aliases, entry.target = target) ∨
      (∃ rule ∈ routing.rules, rule.target = target) ∨ routing.default = some target) :
    ∃ instance_ ∈ providers.instances, instance_.id = target.provider := by
  obtain ⟨_, providerIds, hp, _, haliases, hrules, hdefault⟩ := validateShape_eq_ok h
  have hin : target.provider ∈ providerIds := by
    rcases htarget with ⟨entry, hentry, rfl⟩ | ⟨rule, hrule, rfl⟩ | hset
    · exact checkAliases_known haliases entry hentry
    · exact checkRules_known hrules rule hrule
    · rw [hset] at hdefault
      exact validateTarget_known hdefault
  simpa using collectProviders_known hp _ hin

end

end Wokcore.Core
