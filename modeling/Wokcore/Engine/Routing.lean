import Wokcore.Engine.CatalogFile
import Wokcore.Engine.Snapshot

/-!
# Routing and the model list (`crates/wokcore-engine/src/snapshot.rs`)

A snapshot answers two questions about a model id. `route` says where a request for it goes: to the
target of its alias, or of the most specific rule that matches, or to the default. `public_models`
says who is named as its owner: the target of its alias, or the first provider whose catalog entry
lists it, or the target of a rule, or the default.

`Chosen` is the first order read off the configuration, where rules are not sorted, and
`route_chosen` says that `route` keeps to it for every request without a provider. The two orders of
precedence are not the same, and only one of them looks at the catalog. `Servable` says of a
configuration, source by source, what it takes for the owner of every listed id to be the provider a
request without a client goes to.
-/

set_option autoImplicit false

namespace Wokcore.Engine

open Wokcore.Core Lib ModelAlias Option Std.TreeMap

/-! ## `RuntimeSnapshot::route` -/

structure RouteRequest where
  provider : Option ProviderId
  model : String
  clientId : Option ClientId

/-- `RouteOrigin`; `Alias` is `aliased` here, `alias` being a keyword. -/
inductive RouteOrigin where
  | explicit
  | aliased
  | rule
  | default
deriving DecidableEq, Repr

inductive RouteError where
  | noRoute
  | providerUnavailable
deriving DecidableEq, Repr

structure RouteDecision where
  provider : RouteProvider
  model : String
  origin : RouteOrigin

/-- `CompiledRule::matches`. -/
def CompiledRule.admits (rule : CompiledRule) (request : RouteRequest) : Bool :=
  rule.clientId.all (fun clientId => request.clientId == some clientId)
    && rule.model.all (fun model => model == request.model)

namespace RuntimeSnapshot

def decision (s : RuntimeSnapshot) (target : RouteTarget) (origin : RouteOrigin) :
    Except RouteError RouteDecision :=
  match s.providers[target.provider]? with
  | none => .error .providerUnavailable
  | some provider => .ok ⟨provider, target.model, origin⟩

def route (s : RuntimeSnapshot) (request : RouteRequest) : Except RouteError RouteDecision :=
  match request.provider with
  | some provider => s.decision ⟨provider, request.model⟩ .explicit
  | none =>
      match s.aliases[request.model]? with
      | some target => s.decision target .aliased
      | none =>
          match s.rules.find? fun rule => rule.admits request with
          | some rule => s.decision rule.target .rule
          | none =>
              match s.default with
              | some target => s.decision target .default
              | none => .error .noRoute

end RuntimeSnapshot

/-! ## The configuration read in order of precedence -/

/-- An instance with this identifier is enabled. -/
def isEnabled (providers : ProviderConfig) (id : ProviderId) : Bool :=
  providers.instances.any fun instance_ => instance_.enabled && instance_.id == id

/-- The catalog entry of an enabled instance lists the model or has it as its default. -/
def Offers (catalog : ProviderCatalog) (providers : ProviderConfig) (id : ProviderId)
    (model : String) :
    Prop :=
  ∃ instance_ ∈ providers.instances, instance_.enabled = true ∧ instance_.id = id ∧
    ∃ definition, catalog.provider instance_.catalogId.text = some definition ∧
      (model ∈ definition.models ∨ definition.defaultModel = some model)

/-- The alias with a name. -/
abbrev aliasFor (routing : RoutingConfig) (model : String) : Option ModelAlias :=
  routing.aliases.find? fun entry => decide (entry.aliasName = model)

/-- Where a request without a client goes: to the alias of that name, or by the first rule for the
    model, or by the first rule for everything, or to the default. -/
def targetOf (routing : RoutingConfig) (model : String) : Option RouteTarget :=
  ((aliasFor routing model).map target).or
    (((routing.rules.find? fun rule => rule.clientId.isNone && rule.model == some model).map
        RouteRule.target).or
      (((routing.rules.find? fun rule => rule.clientId.isNone && rule.model.isNone).map
          RouteRule.target).or
        routing.default))

/-- Requests without a client for the model go to this provider. -/
def GoesTo (routing : RoutingConfig) (model : String) (id : ProviderId) : Prop :=
  (targetOf routing model).map RouteTarget.provider = some id

/-- The first rule for a model, of whatever client, that has an enabled target. -/
def ruleOwner (providers : ProviderConfig) (routing : RoutingConfig) (model : String) :
    Option ProviderId :=
  (routing.rules.find? fun rule =>
    rule.model == some model && isEnabled providers rule.target.provider).map fun rule =>
    rule.target.provider

/-- The default, where it is for this model and its target is enabled. -/
def defaultOwner (providers : ProviderConfig) (routing : RoutingConfig) (model : String) :
    Option ProviderId :=
  (routing.default.filter fun target =>
    target.model == model && isEnabled providers target.provider).map RouteTarget.provider

/-- What it takes for the model list to be servable, source by source. -/
structure Servable (catalog : ProviderCatalog) (providers : ProviderConfig)
    (routing : RoutingConfig) :
    Prop where
  /-- An alias of a disabled provider does not hide a model that is listed for another reason. -/
  aliases : ∀ entry ∈ routing.aliases, isEnabled providers entry.target.provider = false →
    (∀ id, ¬Offers catalog providers id entry.aliasName) ∧
      ruleOwner providers routing entry.aliasName = none ∧
      defaultOwner providers routing entry.aliasName = none
  /-- A model of the catalog goes to the first provider that offers it. -/
  listed : ∀ model id, model ∉ routing.aliases.map aliasName →
    Offers catalog providers id model → (∀ other, Offers catalog providers other model →
    id ≤ other) → GoesTo routing model id
  /-- A model that only rules mention goes where the first of them says, though that may be a rule
      for one client. -/
  rules : ∀ model id, model ∉ routing.aliases.map aliasName →
    (∀ other, ¬Offers catalog providers other model) → ruleOwner providers routing model = some id →
    GoesTo routing model id
  /-- A model that only the default mentions goes to the default, and not by a rule for
      everything. -/
  default : ∀ model id, model ∉ routing.aliases.map aliasName →
    (∀ other, ¬Offers catalog providers other model) → ruleOwner providers routing model = none →
    defaultOwner providers routing model = some id → GoesTo routing model id

/-! ## What `route` computes -/

namespace RuntimeSnapshot

variable {parseUrl : UrlParser} {catalog : ProviderCatalog} {providers : ProviderConfig}
  {routing : RoutingConfig} {s : RuntimeSnapshot}

variable (h : build parseUrl catalog providers routing = .ok s) {id : ProviderId}
include h

theorem build_isEnabled (id : ProviderId) : s.providers[id]?.isSome = isEnabled providers id := by
  rw [Bool.eq_iff_iff, isSome_iff_exists, isEnabled, List.any_eq_true]
  constructor
  · rintro ⟨provider, hprovider⟩
    obtain ⟨instance_, hin, henabled, hid, _⟩ := (build_provider h).mp hprovider
    exact ⟨instance_, hin, by simp [henabled, hid]⟩
  · rintro ⟨instance_, hin, hboth⟩
    rw [Bool.and_eq_true, beq_iff_eq] at hboth
    obtain ⟨provider, hprovider, _⟩ := build_enabled h hin hboth.1
    exact ⟨provider, hboth.2 ▸ hprovider⟩

theorem build_provider_id {provider : RouteProvider} (hget : s.providers[id]? = some provider) :
    provider.id = id := by
  obtain ⟨_, _, _, hid, hfrom⟩ := (build_provider h).mp hget
  rw [hfrom.id_eq, hid]

theorem decision_eq_ok {target : RouteTarget} {origin : RouteOrigin} :
    (∃ d, s.decision target origin = .ok d ∧ d.provider.id = id) ↔
      target.provider = id ∧ isEnabled providers id = true := by
  rw [← build_isEnabled h]
  cases hget : s.providers[target.provider]? with
  | none =>
    simp only [decision, hget]
    constructor
    · rintro ⟨d, hd, _⟩
      cases hd
    · rintro ⟨rfl, hsome⟩
      rw [hget] at hsome
      cases hsome
  | some provider =>
    simp only [decision, hget, Except.ok.injEq, exists_eq_left']
    rw [build_provider_id h hget]
    constructor
    · rintro rfl
      exact ⟨rfl, by rw [hget]; rfl⟩
    · exact fun hboth => hboth.1

theorem build_aliases (model : String) :
    s.aliases[model]? = (aliasFor routing model).map target := by
  have hnd := (build_shape h).aliases
  obtain ⟨_, runtimeProviders, _, rfl⟩ := build_inv h
  have hfill := lookup_foldl_override (fun (m : Std.TreeMap String RouteTarget) k => m[k]?)
    (fun m (entry : ModelAlias) => m.insert entry.aliasName entry.target) aliasName
    (fun entry => some entry.target) (fun m entry k => by simp [getElem?_insert]) {} hnd model
  simpa [map_eq_bind, Function.comp_def] using hfill

theorem build_rules (model : String) :
    (s.rules.find? fun rule => rule.admits ⟨none, model, none⟩).map CompiledRule.target =
      ((routing.rules.find? fun rule => rule.clientId.isNone && rule.model == some model).map
          RouteRule.target).or
        ((routing.rules.find? fun rule => rule.clientId.isNone && rule.model.isNone).map
          RouteRule.target) := by
  obtain ⟨_, runtimeProviders, _, rfl⟩ := build_inv h
  have hsplit : ∀ rule : CompiledRule, rule.admits ⟨none, model, none⟩ =
      ((rule.clientId.isNone && rule.model == some model) ||
        (rule.clientId.isNone && rule.model.isNone)) := by
    rintro ⟨_ | clientId, _ | own, target⟩ <;> simp [CompiledRule.admits]
  have hone : ∀ rule : CompiledRule, (rule.clientId.isNone && rule.model == some model) = true →
      rule.specificity = 1 := by
    rintro ⟨_ | clientId, _ | own, target⟩ <;> simp [CompiledRule.specificity]
  have hzero : ∀ rule : CompiledRule, (rule.clientId.isNone && rule.model.isNone) = true →
      rule.specificity = 0 := by
    rintro ⟨_ | clientId, _ | own, target⟩ <;> simp [CompiledRule.specificity]
  have hsorted := List.pairwise_insertionSort
    (fun left right : CompiledRule => right.specificity ≤ left.specificity)
    (routing.rules.map CompiledRule.fromConfig)
  have hlt : ∀ a b : CompiledRule, _ → _ → b.specificity < a.specificity := fun a b ha hb => by
    rw [hone a ha, hzero b hb]
    exact zero_lt_one
  rw [find?_of_pairwise hsorted hsplit hlt, find?_insertionSort hone, find?_insertionSort hzero,
    List.find?_map, List.find?_map]
  simp only [map_or, map_map]
  rfl

/-- **Routing.** A request that names neither provider nor client is routed to a provider exactly if
    the configuration sends it there and the provider is enabled. -/
theorem route_iff (model : String) (id : ProviderId) :
    (∃ d, s.route ⟨none, model, none⟩ = .ok d ∧ d.provider.id = id) ↔
      GoesTo routing model id ∧ isEnabled providers id = true := by
  have hdefault : s.default = routing.default := by
    obtain ⟨_, _, _, rfl⟩ := build_inv h
    rfl
  have hrules := build_rules h model
  simp only [route, GoesTo, targetOf, ← build_aliases h model]
  cases s.aliases[model]? with
  | some target => simpa using decision_eq_ok h
  | none =>
    rw [Option.none_or, ← Option.or_assoc, ← hrules, hdefault]
    cases s.rules.find? fun rule => rule.admits ⟨none, model, none⟩ with
    | some rule => simpa using decision_eq_ok h
    | none =>
      cases routing.default with
      | some target => simpa using decision_eq_ok h
      | none => simp

end RuntimeSnapshot

/-! ## The choice of a target -/

section Choice

open List CompiledRule

/-- The most specific rule that admits a request, and among equals the earliest in the
    configuration. -/
def Picks (rules : List RouteRule) (request : RouteRequest) (rule : RouteRule) : Prop :=
  (∀ other ∈ rules, (fromConfig other).admits request →
      (fromConfig other).specificity ≤ (fromConfig rule).specificity) ∧
    (rules.find? fun other => (fromConfig other).admits request &&
      (fromConfig other).specificity == (fromConfig rule).specificity) = some rule

variable (routing : RoutingConfig) (request : RouteRequest)

/-- What a configuration chooses for a request that names no provider. -/
inductive Chosen : RouteTarget → RouteOrigin → Prop
  | aliased {entry : ModelAlias} (hin : entry ∈ routing.aliases)
    (hname : entry.aliasName = request.model) :
      Chosen entry.target .aliased
  | rule {rule : RouteRule} (hname : request.model ∉ routing.aliases.map aliasName)
      (hpicks : Picks routing.rules request rule) : Chosen rule.target .rule
  | default {target : RouteTarget} (hname : request.model ∉ routing.aliases.map aliasName)
      (hrules : ∀ rule ∈ routing.rules, (fromConfig rule).admits request = false)
      (hdefault : routing.default = some target) : Chosen target .default

/-- The answer for a target: it belongs to an instance, and if that is disabled the provider is
    unavailable, otherwise it is the provider the instance was compiled into. -/
def Answers (catalog : ProviderCatalog) (providers : ProviderConfig) (target : RouteTarget)
    (origin : RouteOrigin) (answer : Except RouteError RouteDecision) : Prop :=
  ∃ instance_ ∈ providers.instances, instance_.id = target.provider ∧
    (answer = .error .providerUnavailable ↔ instance_.enabled = false) ∧
    (instance_.enabled = true → ∃ provider, BuiltFrom catalog providers instance_ provider ∧
      answer = .ok ⟨provider, target.model, origin⟩)

namespace RuntimeSnapshot

variable {parseUrl : UrlParser} {catalog : ProviderCatalog} {providers : ProviderConfig}
  {routing : RoutingConfig} {request : RouteRequest} {s : RuntimeSnapshot}
  (h : build parseUrl catalog providers routing = .ok s)
include h

theorem answers_decision {target : RouteTarget} {origin : RouteOrigin}
    (hchosen : Chosen routing request target origin) :
    Answers catalog providers target origin (s.decision target origin) := by
  obtain ⟨⟨v, hvalid⟩, _⟩ := build_inv h
  have hknown : ∃ instance_ ∈ providers.instances, instance_.id = target.provider := by
    refine validateShape_known (validateProviderConfiguration_inv hvalid).1 ?_
    cases hchosen with
    | aliased hin _ => exact .inl ⟨_, hin, rfl⟩
    | rule _ hpicks => exact .inr (.inl ⟨_, mem_of_find?_eq_some hpicks.2, rfl⟩)
    | default _ _ hdefault => exact .inr (.inr hdefault)
  obtain ⟨instance_, hin, hid⟩ := hknown
  refine ⟨instance_, hin, hid, ?_⟩
  rw [decision, ← hid]
  cases henabled : instance_.enabled with
  | true =>
    obtain ⟨provider, hget, hfrom⟩ := build_enabled h hin henabled
    rw [hget]
    exact ⟨by simp, fun _ => ⟨provider, hfrom, rfl⟩⟩
  | false =>
    have hnone : s.providers[instance_.id]? = none := by
      refine eq_none_iff_forall_ne_some.mpr fun provider hget => ?_
      obtain ⟨other, hother, hon, hsame, _⟩ := (build_provider h).mp hget
      rw [inj_on_of_nodup_map (build_shape h).instances hother hin hsame, henabled] at hon
      cases hon
    simp [hnone]

/-- **Precedence.** A request without an explicit provider is answered for the target its
    configuration chooses, and has no route only if that chooses none. -/
theorem route_chosen (hrequest : request.provider = none) :
    (∃ target origin, Chosen routing request target origin ∧
        Answers catalog providers target origin (s.route request)) ∨
      (∀ target origin, ¬Chosen routing request target origin) ∧
      s.route request = .error .noRoute := by
  have haliases := build_aliases h request.model
  obtain ⟨_, _, _, hs⟩ := build_inv h
  simp only [route, hrequest]
  cases halias : s.aliases[request.model]? with
  | some target =>
    obtain ⟨entry, hfind, rfl⟩ := map_eq_some_iff.mp (haliases.symm.trans halias)
    have hchosen := Chosen.aliased (mem_of_find?_eq_some hfind) (by simpa using find?_some hfind)
    exact .inl ⟨_, _, hchosen, answers_decision h hchosen⟩
  | none =>
    have hname : request.model ∉ routing.aliases.map aliasName := by
      simpa using haliases.symm.trans halias
    cases hfind : s.rules.find? fun rule => rule.admits request with
    | some compiled =>
      rw [hs] at hfind
      obtain ⟨hmax, hfirst⟩ := find?_insertionSort_eq_some.mp hfind
      rw [find?_map, map_eq_some_iff] at hfirst
      obtain ⟨rule, hrule, rfl⟩ := hfirst
      have hchosen := Chosen.rule hname ⟨fun other hin => hmax _ (mem_map_of_mem hin), hrule⟩
      exact .inl ⟨_, _, hchosen, answers_decision h hchosen⟩
    | none =>
      have hrules : ∀ rule ∈ routing.rules, (fromConfig rule).admits request = false := by
        simpa [hs] using hfind
      have hsame : s.default = routing.default := by rw [hs]
      rw [hsame]
      cases hdefault : routing.default with
      | some target =>
        have hchosen := Chosen.default hname hrules hdefault
        exact .inl ⟨_, _, hchosen, answers_decision h hchosen⟩
      | none =>
        refine .inr ⟨?_, rfl⟩
        rintro target origin (⟨hin, hmodel⟩ | ⟨_, hpicks⟩ | ⟨_, _, hset⟩)
        · exact hname (mem_map.mpr ⟨_, hin, hmodel⟩)
        · have hadmits := find?_some hpicks.2
          simp [hrules _ (mem_of_find?_eq_some hpicks.2)] at hadmits
        · cases hset.symm.trans hdefault

end RuntimeSnapshot

end Choice

/-! ## What `build_public_models` lists -/

theorem offerModel_getElem? (models : ModelTable) (id : String)
    (provider : RouteProvider) (k : String) :
    (offerModel models id provider)[k]? =
      models[k]?.or (if id = k then some (publicModel k provider) else none) := by
  rw [offerModel, getElem?_insertIfNew]
  by_cases hid : id = k
  · subst hid
    by_cases hin : id ∈ models
    · rw [if_neg fun h => h.2 hin, getElem?_eq_some_getElem hin]
      rfl
    · rw [if_pos ⟨Std.ReflCmp.compare_self, hin⟩, getElem?_eq_none hin]
      simp
  · rw [if_neg fun h => hid (Std.LawfulEqCmp.eq_of_compare h.1)]
    simp [hid]

/-- The first provider whose catalog entry has a model. -/
abbrev firstOffering (catalog : ProviderCatalog) (providers : RouteProviders) (model : String) :
    Option RouteProvider :=
  providers.values.find? fun provider => decide (model ∈ catalogModels catalog provider)

/-- The owner of a listed model: the enabled target of its alias, or the first provider whose
    catalog entry has it, or the enabled target of a rule for it, or of the default. -/
def owner (catalog : ProviderCatalog) (providers : RouteProviders) (routing : RoutingConfig)
    (model : String) :
    Option RouteProvider :=
  ((aliasFor routing model).bind fun entry =>
      providers[entry.target.provider]?).or
    ((firstOffering catalog providers model).or
      ((routing.rules.findSome? fun rule =>
          if rule.model = some model then providers[rule.target.provider]? else none).or
        (routing.default.bind fun target =>
          if target.model = model then providers[target.provider]? else none)))

section Listed

variable (catalog : ProviderCatalog) (providers : RouteProviders) (routing : RoutingConfig)
  (models : ModelTable) (k : String)

/-- `lookup_foldl_offer` for the table of models. -/
theorem models_foldl_offer {α : Type} {step : ModelTable → α → ModelTable}
    (offer : α → String → Option RouteProvider) (hstep : ∀ (m : ModelTable) a (k : String),
      (step m a)[k]? = m[k]?.or ((offer a k).map (publicModel k))) (as : List α) :
    (as.foldl step models)[k]? =
      models[k]?.or ((as.findSome? fun a => offer a k).map (publicModel k)) := by
  refine (lookup_foldl_offer (fun (m : ModelTable) (k : String) => m[k]?) step
    (fun a k => (offer a k).map (publicModel k)) hstep models as k).trans (congrArg _ ?_)
  exact (List.map_findSome? ..).symm

theorem catalogModels_getElem? (provider : RouteProvider) :
    ((catalogModels catalog provider).foldl (fun models id => offerModel models id provider)
      models)[k]? = models[k]?.or
        ((if k ∈ catalogModels catalog provider then some provider else none).map
          (publicModel k)) := by
  have hstep : ∀ (m : ModelTable) (id k : String),
      (offerModel m id provider)[k]? =
        m[k]?.or ((if id = k then some provider else none).map (publicModel k)) := by
    intro m id k
    rw [offerModel_getElem?]
    split <;> rfl
  rw [models_foldl_offer models k (fun id k => if id = k then some provider else none) hstep]
  congr 2
  induction catalogModels catalog provider with
  | nil => rfl
  | cons id ids ih =>
    by_cases hid : id = k
    · simp [hid]
    · have hid' : k ≠ id := fun h => hid h.symm
      simp [hid, hid', ih]

theorem catalog_getElem? :
    (providers.values.foldl (fun models provider =>
      (catalogModels catalog provider).foldl
        (fun models id => offerModel models id provider) models)
      models)[k]? =
    models[k]?.or ((firstOffering catalog providers k).map (publicModel k)) := by
  rw [models_foldl_offer models k
    (fun provider k => if k ∈ catalogModels catalog provider then some provider else none)
    (fun m provider k => catalogModels_getElem? catalog m k provider)]
  congr 2
  rw [firstOffering]
  induction providers.values with
  | nil => rfl
  | cons provider rest ih =>
    by_cases hk : k ∈ catalogModels catalog provider
    · simp [hk]
    · simp [hk, ih]

theorem aliases_getElem? (hnd : (routing.aliases.map aliasName).Nodup) :
    (routing.aliases.foldl (fun models entry =>
      match providers[entry.target.provider]? with
      | none => models
      | some provider =>
        models.insert entry.aliasName (publicModel entry.aliasName provider)) models)[k]? =
    (((aliasFor routing k).bind fun entry =>
      providers[entry.target.provider]?).map (publicModel k)).or models[k]? := by
  refine (lookup_foldl_override (fun (m : ModelTable) (k : String) => m[k]?) _
    aliasName (fun entry => providers[entry.target.provider]?.map (publicModel entry.aliasName))
    ?_ models hnd k).trans ?_
  · intro m entry k
    cases providers[entry.target.provider]? with
    | none => simp
    | some provider => simp [getElem?_insert]
  · show ((aliasFor routing k).bind _).or _ = _
    cases hfind : aliasFor routing k with
    | none => rfl
    | some entry =>
      have hname := List.find?_some hfind
      rw [decide_eq_true_eq] at hname
      subst hname
      rfl

theorem rules_getElem? :
    (routing.rules.foldl (fun models rule =>
      match rule.model, providers[rule.target.provider]? with
      | some model, some provider => offerModel models model provider
      | _, _ => models) models)[k]? =
    models[k]?.or ((routing.rules.findSome? fun rule =>
      if rule.model = some k then providers[rule.target.provider]? else none).map
        (publicModel k)) := by
  refine models_foldl_offer models k
    (fun rule k => if rule.model = some k then providers[rule.target.provider]? else none) ?_
    routing.rules
  intro m rule k
  cases hmodel : rule.model with
  | none => simp
  | some model =>
    cases providers[rule.target.provider]? with
    | none => simp
    | some provider =>
      simp only [offerModel_getElem?, some.injEq]
      split <;> rfl

theorem default_getElem? : (match routing.default with
      | none => models
      | some target =>
          match providers[target.provider]? with
          | none => models
          | some provider => offerModel models target.model provider)[k]? =
    models[k]?.or ((routing.default.bind fun target =>
      if target.model = k then providers[target.provider]? else none).map (publicModel k)) := by
  cases routing.default with
  | none => simp
  | some target =>
    cases hget : providers[target.provider]? with
    | none => simp [hget]
    | some provider =>
      simp only [hget, offerModel_getElem?, bind_some]
      split <;> rfl

/-- **The model list.** It has one entry for each model with an owner, and names that owner. -/
theorem mem_buildPublicModels (hnd : (routing.aliases.map aliasName).Nodup)
    {metadata : PublicModelMetadata} :
    metadata ∈ buildPublicModels catalog providers routing ↔
      ∃ model provider, owner catalog providers routing model = some provider ∧
        metadata = publicModel model provider := by
  rw [buildPublicModels, mem_values]
  refine exists_congr fun model => ?_
  -- The four stages, the last first.
  have hrules := (rules_getElem? providers routing _ model).trans (congrArg (Option.or · _)
    ((aliases_getElem? providers routing _ model hnd).trans (congrArg (Option.or _)
      (catalog_getElem? catalog providers {} model))))
  refine (Eq.congr_left ((default_getElem? providers routing _ model).trans
    (congrArg (Option.or · _) hrules))).trans ?_
  rw [getElem?_emptyc, Option.none_or, Option.or_assoc, Option.or_assoc, ← Option.map_or,
    ← map_or, ← map_or, map_eq_some_iff]
  exact exists_congr fun provider => and_congr_right fun _ => eq_comm

end Listed

/-! ## Listed and served -/

namespace RuntimeSnapshot

variable {parseUrl : UrlParser} {catalog : ProviderCatalog} {providers : ProviderConfig}
  {routing : RoutingConfig} {s : RuntimeSnapshot} {model : String}

section

variable (h : build parseUrl catalog providers routing = .ok s) {id : ProviderId}
include h

theorem offers_iff (id : ProviderId) (model : String) :
    Offers catalog providers id model ↔
      ∃ provider, s.providers[id]? = some provider ∧ model ∈ catalogModels catalog provider := by
  have hmodels : ∀ {instance_ provider definition}, BuiltFrom catalog providers instance_ provider →
      catalog.provider instance_.catalogId.text = some definition →
      catalogModels catalog provider = definition.models ++ definition.defaultModel.toList := by
    rintro instance_ provider definition ⟨_, _, hcompiled⟩ hdef
    rw [(buildProvider_inv hcompiled).2]
    simp only [catalogModels, hdef]
  constructor
  · rintro ⟨instance_, hin, henabled, rfl, definition, hdef, hmodel⟩
    obtain ⟨provider, hget, hfrom⟩ := build_enabled h hin henabled
    refine ⟨provider, hget, ?_⟩
    rw [hmodels hfrom hdef]
    simpa using hmodel
  · rintro ⟨provider, hget, hmodel⟩
    obtain ⟨instance_, hin, henabled, hid, hfrom⟩ := (build_provider h).mp hget
    have ⟨definition, hdef, _⟩ := hfrom
    refine ⟨instance_, hin, henabled, hid, definition, hdef, ?_⟩
    rw [hmodels hfrom hdef] at hmodel
    simpa using hmodel

/-- The identifier of a provider that is looked up is the one it is looked up by. -/
theorem build_getElem?_map_id (id : ProviderId) :
    s.providers[id]?.map RouteProvider.id = if isEnabled providers id then some id else none := by
  rw [← build_isEnabled h]
  cases hget : s.providers[id]? with
  | none => rfl
  | some provider => simp [build_provider_id h hget]

theorem rules_map_id (model : String) :
    (routing.rules.findSome? fun rule =>
      if rule.model = some model then s.providers[rule.target.provider]?
        else none).map RouteProvider.id =
    ruleOwner providers routing model := by
  rw [ruleOwner]
  induction routing.rules with
  | nil => rfl
  | cons rule rest ih =>
    have hid := build_getElem?_map_id h rule.target.provider
    rw [List.findSome?_cons, List.find?_cons]
    by_cases hmodel : rule.model = some model
    · cases hget : s.providers[rule.target.provider]? with
      | none | some =>
        simp_all
    · have hbeq : (rule.model == some model) = false := by simpa using hmodel
      rw [if_neg hmodel, hbeq, Bool.false_and]
      exact ih

theorem default_map_id (model : String) :
    (routing.default.bind fun target =>
      if target.model = model then s.providers[target.provider]? else none).map RouteProvider.id =
    defaultOwner providers routing model := by
  rw [defaultOwner]
  cases routing.default with
  | none => rfl
  | some target =>
    rw [bind_some]
    by_cases hmodel : target.model = model
    · rw [if_pos hmodel, build_getElem?_map_id h]
      cases henabled : isEnabled providers target.provider <;> simp [hmodel, henabled,
        Option.filter]
    · simp [hmodel, Option.filter]

/-- **Who is listed.** A listed model and its owner, source by source. -/
theorem mem_publicModels_iff : (∃ metadata ∈ s.publicModels, metadata.id = model ∧
      metadata.ownedBy = id) ↔ (owner catalog s.providers routing model).map RouteProvider.id =
        some id := by
  have hnd := (build_shape h).aliases
  have hlist : s.publicModels = buildPublicModels catalog s.providers routing := by
    obtain ⟨_, _, _, rfl⟩ := build_inv h
    rfl
  rw [hlist, map_eq_some_iff]
  constructor
  · rintro ⟨metadata, hmem, rfl, rfl⟩
    obtain ⟨model, provider, howner, rfl⟩ := (mem_buildPublicModels _ _ _ hnd).mp hmem
    exact ⟨provider, howner, rfl⟩
  · rintro ⟨provider, howner, rfl⟩
    exact ⟨_, (mem_buildPublicModels _ _ _ hnd).mpr ⟨model, provider, howner, rfl⟩, rfl, rfl⟩

/-- Owners are enabled. -/
theorem isEnabled_of_owner {provider : RouteProvider}
    (howner : owner catalog s.providers routing model = some provider) :
    isEnabled providers provider.id = true := by
  have hget : ∃ id : ProviderId, s.providers[id]? = some provider := by
    rw [owner, or_eq_some_iff, or_eq_some_iff, or_eq_some_iff] at howner
    rcases howner with halias | ⟨_, hlisted | ⟨_, hrule | ⟨_, hdefault⟩⟩⟩
    · obtain ⟨entry, _, hget⟩ := bind_eq_some_iff.mp halias
      exact ⟨_, hget⟩
    · exact mem_values.mp (List.mem_of_find?_eq_some hlisted)
    · obtain ⟨rule, _, hget⟩ := List.exists_of_findSome?_eq_some hrule
      split at hget
      · exact ⟨_, hget⟩
      · cases hget
    · obtain ⟨target, _, hget⟩ := bind_eq_some_iff.mp hdefault
      split at hget
      · exact ⟨_, hget⟩
      · cases hget
  obtain ⟨id, hget⟩ := hget
  rw [build_provider_id h hget, ← build_isEnabled h, hget]
  rfl

/-- The first provider that lists a model is the least of those that offer it. -/
theorem listed_iff : (firstOffering catalog s.providers model).map RouteProvider.id = some id ↔
      Offers catalog providers id model ∧ ∀ other, Offers catalog providers other model →
      id ≤ other := by
  have hleast : ∀ {provider}, firstOffering catalog s.providers model = some provider →
      Offers catalog providers provider.id model ∧
        ∀ other, Offers catalog providers other model → provider.id ≤ other := by
    intro provider hfind
    obtain ⟨hmodel, k, hget, hmin⟩ := find?_values_eq_some hfind
    rw [build_provider_id h hget]
    refine ⟨(offers_iff h k model).mpr ⟨provider, hget, of_decide_eq_true hmodel⟩, ?_⟩
    intro other hother
    obtain ⟨provider', hget', hmodel'⟩ := (offers_iff h other model).mp hother
    exact hmin other provider' hget' (decide_eq_true hmodel')
  constructor
  · intro hmap
    obtain ⟨provider, hfind, rfl⟩ := map_eq_some_iff.mp hmap
    exact hleast hfind
  · rintro ⟨hoffers, hmin⟩
    cases hfind : firstOffering catalog s.providers model with
    | none =>
      obtain ⟨provider, hget, hmodel⟩ := (offers_iff h id model).mp hoffers
      have hno := List.find?_eq_none.mp hfind provider (mem_values.mpr ⟨id, hget⟩)
      exact absurd (decide_eq_true hmodel) hno
    | some provider =>
      obtain ⟨hfirst, hmin'⟩ := hleast hfind
      rw [map_some, le_antisymm (hmin' id hoffers) (hmin provider.id hfirst)]

theorem listed_eq_none_iff : firstOffering catalog s.providers model = none ↔
      ∀ id, ¬Offers catalog providers id model := by
  rw [List.find?_eq_none]
  constructor
  · intro hnone id hoffers
    obtain ⟨provider, hget, hmodel⟩ := (offers_iff h id model).mp hoffers
    exact hnone provider (mem_values.mpr ⟨id, hget⟩) (decide_eq_true hmodel)
  · intro hnone provider hmem hmodel
    obtain ⟨id, hget⟩ := mem_values.mp hmem
    exact hnone id ((offers_iff h id model).mpr ⟨provider, hget, of_decide_eq_true hmodel⟩)

theorem owner_map_id (model : String) :
    (owner catalog s.providers routing model).map RouteProvider.id =
      ((aliasFor routing model).bind fun entry =>
          if isEnabled providers entry.target.provider then some entry.target.provider else none).or
        (((firstOffering catalog s.providers model).map RouteProvider.id).or
          ((ruleOwner providers routing model).or (defaultOwner providers routing model))) := by
  simp only [owner, Option.map_or, Option.map_bind, rules_map_id h, default_map_id h,
    Function.comp_def, build_getElem?_map_id h]

theorem find?_alias {entry : ModelAlias} (hmem : entry ∈ routing.aliases) :
    aliasFor routing entry.aliasName = some entry := by
  cases hfind : aliasFor routing entry.aliasName with
  | none =>
    have hno := List.find?_eq_none.mp hfind entry hmem
    simp at hno
  | some other =>
    have hname := List.find?_some hfind
    rw [decide_eq_true_eq] at hname
    rw [List.inj_on_of_nodup_map (build_shape h).aliases
      (List.mem_of_find?_eq_some hfind) hmem hname]

end

/-- A request for an alias goes to the target of the alias. -/
theorem goesTo_alias {id : ProviderId} {entry : ModelAlias}
    (hfind : aliasFor routing model = some entry) :
    GoesTo routing model id ↔ entry.target.provider = id := by
  simp [GoesTo, targetOf, hfind]

theorem find?_alias_eq_none : aliasFor routing model = none ↔
      model ∉ routing.aliases.map aliasName := by
  simp [List.find?_eq_none]

/-- **The model list is servable.** Every listed model is routed to its owner when it is requested
    without a provider and without a client, exactly if the configuration keeps the four rules of
    `Servable`. -/
theorem publicModels_routed_iff (h : build parseUrl catalog providers routing = .ok s) :
    (∀ metadata ∈ s.publicModels, ∃ d, s.route ⟨none, metadata.id, none⟩ = .ok d ∧
        d.provider.id = metadata.ownedBy) ↔
      Servable catalog providers routing := by
  have hserved : (∀ metadata ∈ s.publicModels, ∃ d, s.route ⟨none, metadata.id, none⟩ = .ok d ∧
        d.provider.id = metadata.ownedBy) ↔
      ∀ model id, (owner catalog s.providers routing model).map RouteProvider.id = some id →
        GoesTo routing model id := by
    constructor
    · intro hall model id howner
      obtain ⟨metadata, hmem, rfl, rfl⟩ := (mem_publicModels_iff h).mpr howner
      exact ((route_iff h _ _).mp (hall metadata hmem)).1
    · intro hall metadata hmem
      have howner := (mem_publicModels_iff h).mp ⟨metadata, hmem, rfl, rfl⟩
      refine (route_iff h _ _).mpr ⟨hall _ _ howner, ?_⟩
      obtain ⟨provider, hprovider, hid⟩ := map_eq_some_iff.mp howner
      exact hid ▸ isEnabled_of_owner h hprovider
  rw [hserved]
  constructor
  · intro hall
    refine ⟨?_, ?_, ?_, ?_⟩
    · -- With a disabled target, whoever owned the name would be sent requests that go to that
      -- target.
      intro entry hmem hdisabled
      have hnone : owner catalog s.providers routing entry.aliasName = none := by
        cases howner : owner catalog s.providers routing entry.aliasName with
        | none => rfl
        | some provider =>
          have hgoes := hall entry.aliasName provider.id (by rw [howner]; rfl)
          rw [(goesTo_alias (find?_alias h hmem)).mp hgoes,
            isEnabled_of_owner h howner] at hdisabled
          cases hdisabled
      have hmap := owner_map_id h entry.aliasName
      rw [hnone, find?_alias h hmem, bind_some, if_neg (by simp [hdisabled]), none_or] at hmap
      obtain ⟨hlisted, hrest⟩ := or_eq_none_iff.mp hmap.symm
      obtain ⟨hrule, hdefault⟩ := or_eq_none_iff.mp hrest
      exact ⟨(listed_eq_none_iff h).mp (map_eq_none_iff.mp hlisted), hrule, hdefault⟩
    · intro model id hname hoffers hmin
      apply hall
      rw [owner_map_id h, find?_alias_eq_none.mpr hname, (listed_iff h).mpr ⟨hoffers, hmin⟩]
      rfl
    · intro model id hname hnone hrule
      apply hall
      rw [owner_map_id h, find?_alias_eq_none.mpr hname, (listed_eq_none_iff h).mpr hnone, hrule]
      rfl
    · intro model id hname hnone hrule hdefault
      apply hall
      rw [owner_map_id h, find?_alias_eq_none.mpr hname, (listed_eq_none_iff h).mpr hnone, hrule,
        hdefault]
      rfl
  · intro hservable model id howner
    rw [owner_map_id h] at howner
    cases hfind : aliasFor routing model with
    | some entry =>
      have hmem := List.mem_of_find?_eq_some hfind
      have hname := List.find?_some hfind
      rw [decide_eq_true_eq] at hname
      subst hname
      rw [goesTo_alias hfind]
      cases henabled : isEnabled providers entry.target.provider with
      | true => simpa [hfind, henabled] using howner
      | false =>
        obtain ⟨hnone, hrule, hdefault⟩ := hservable.aliases entry hmem henabled
        rw [hfind, bind_some, henabled, (listed_eq_none_iff h).mpr hnone, hrule, hdefault] at howner
        cases howner
    | none =>
      have hname := find?_alias_eq_none.mp hfind
      rw [hfind, bind_none, none_or] at howner
      cases hlisted : firstOffering catalog s.providers model with
      | some provider =>
        rw [hlisted, map_some, some_or] at howner
        obtain ⟨hoffers, hmin⟩ := (listed_iff h).mp (by rw [hlisted]; exact howner)
        exact hservable.listed model id hname hoffers hmin
      | none =>
        have hnone := (listed_eq_none_iff h).mp hlisted
        rw [hlisted, map_none, none_or] at howner
        cases hrule : ruleOwner providers routing model with
        | some target =>
          rw [hrule, some_or] at howner
          exact hservable.rules model id hname hnone (hrule.trans howner)
        | none =>
          rw [hrule, none_or] at howner
          exact hservable.default model id hname hnone hrule howner

/-! ## A listed model nothing serves -/

def apiKeyFile : CatalogFile := ⟨1, "97e7326f89bcfbb29a2c73250cb25eb801d066b6", [apiKeyDefinition]⟩

def primaryDefault : RoutingConfig where
  default := some ⟨primaryId, "gpt-5.5"⟩

/-- The equivalence where the default serves the one model of the catalog. -/
theorem publicModels_routed_iff_primaryDefault :
    ∃ s, build parsePlain ⟨[apiKeyDefinition]⟩ primaryConfig primaryDefault = .ok s ∧
      ((∀ metadata ∈ s.publicModels, ∃ d, s.route ⟨none, metadata.id, none⟩ = .ok d ∧
          d.provider.id = metadata.ownedBy) ↔
        Servable ⟨[apiKeyDefinition]⟩ primaryConfig primaryDefault) :=
  ⟨_, rfl, @publicModels_routed_iff parsePlain _ _ _ _ rfl⟩

/-- An alias, a rule for one model, a rule for all of them and a default. -/
def layeredRouting : RoutingConfig where
  aliases := [⟨"fast", ⟨primaryId, "gpt-5.5"⟩⟩]
  rules := [⟨none, none, ⟨primaryId, "gpt-5"⟩⟩, ⟨none, some "best", ⟨primaryId, "gpt-5.5"⟩⟩]
  default := some ⟨primaryId, "gpt-5"⟩

/-- The later and more specific rule decides. -/
theorem route_chosen_layered :
    ∃ s d, build parsePlain ⟨[apiKeyDefinition]⟩ primaryConfig layeredRouting = .ok s ∧
      s.route ⟨none, "best", none⟩ = .ok d ∧ d.model = "gpt-5.5" ∧ d.origin = .rule ∧
      ((∃ target origin, Chosen layeredRouting ⟨none, "best", none⟩ target origin ∧
          Answers ⟨[apiKeyDefinition]⟩ primaryConfig target origin (s.route ⟨none, "best", none⟩)) ∨
        (∀ target origin, ¬Chosen layeredRouting ⟨none, "best", none⟩ target origin) ∧
          s.route ⟨none, "best", none⟩ = .error .noRoute) :=
  ⟨_, _, rfl, rfl, rfl, rfl, @route_chosen parsePlain _ _ _ ⟨none, "best", none⟩ _ rfl rfl⟩

/-- Without any routing the model of the catalog is listed and has no route. -/
theorem publicModels_noRoute :
    ∃ s metadata, ProviderCatalog.validate parsePlain apiKeyFile = .ok ⟨[apiKeyDefinition]⟩ ∧
      build parsePlain ⟨[apiKeyDefinition]⟩ primaryConfig {} = .ok s ∧
      metadata ∈ s.publicModels ∧ metadata.id = "gpt-5.5" ∧ metadata.ownedBy = primaryId ∧
      s.route ⟨none, metadata.id, none⟩ = .error .noRoute :=
  ⟨_, ⟨"gpt-5.5", primaryId, apiKeyDefinition.capabilities⟩, validate_of_isOk (by decide +kernel),
    rfl, by decide +kernel, rfl, rfl, rfl⟩

end RuntimeSnapshot

end Wokcore.Engine
