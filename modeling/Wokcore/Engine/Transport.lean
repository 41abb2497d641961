import Wokcore.Engine.CatalogFile
import Wokcore.Engine.Snapshot

/-!
# The endpoint policy of the transport (`crates/wokcore-engine/src/transport.rs`)

Before a request leaves, `validate_url_policy` holds its URL against the network policy of the
provider it goes to. The configuration has by then been through checks of its own, with an address
classifier of its own: `is_private_ip` when a catalog is read and a configuration validated,
`ipv4_is_public`, `ipv6_is_public` and `ip_is_connectable` here.

The two do not agree. The reserved ranges are public to the validator and not to the transport, the
unspecified and multicast addresses are private to the validator and out of reach for the transport,
and an override takes a loopback provider to a public host that its policy then refuses. `Agreed` is
what is left: the main result says that the transport accepts an endpoint the validator let through
exactly there.
-/

set_option autoImplicit false

namespace Wokcore.Engine

open Wokcore.Core RuntimeSnapshot BitVec

variable {host : Host}

inductive NetworkPolicy where
  | publicOnly
  | privateAllowed
  | loopbackOnly
deriving DecidableEq, Repr

/-- `network_policy` of `apps/wokcore/src/runtime.rs`. -/
def networkPolicy : EndpointAccess → NetworkPolicy
  | .publicOnly => .publicOnly
  | .privateAllowed => .privateAllowed
  | .loopbackOnly => .loopbackOnly

/-- The two kinds of `TransportErrorKind` that the policy check reports. -/
inductive TransportErrorKind where
  | invalidRequest
  | policy
deriving DecidableEq, Repr

/-! ## Addresses -/

/-- `Ipv4Addr::is_multicast`. -/
def isMulticastIpv4 (address : BitVec 32) : Bool := 224 ≤ octet address 0 && octet address 0 ≤ 239

variable (address : BitVec 128) {url : Url}

/-- `Ipv6Addr::is_multicast`. -/
def isMulticastIpv6 : Bool := octet address 0 == 0xff

/-- Segment `i` of an address, the most significant first. -/
def segment (i : Nat) : BitVec 16 := address.extractLsb' (112 - 16 * i) 16

def ipv4IsPublic (address : BitVec 32) : Bool :=
  let a := octet address 0
  let b := octet address 1
  let c := octet address 2
  -- is_private, is_loopback, is_link_local, is_broadcast
  !(a == 10 || (a == 172 && 16 ≤ b && b ≤ 31) || (a == 192 && b == 168))
    && !isLoopbackIpv4 address && !(a == 169 && b == 254) && !(address == allOnes 32)
    -- is_documentation, is_unspecified, is_multicast
    && !((a == 192 && b == 0 && c == 2) || (a == 198 && b == 51 && c == 100)
      || (a == 203 && b == 0 && c == 113))
    && !(address == 0) && !isMulticastIpv4 address
    && a != 0 && !(a == 100 && 64 ≤ b && b ≤ 127) && !(a == 198 && (b == 18 || b == 19)) && a < 240

def ipv6IsPublic : Bool :=
  if address == 0 || isLoopbackIpv6 address || isMulticastIpv6 address
      || segment address 0 &&& 0xfe00 == 0xfc00 || segment address 0 &&& 0xffc0 == 0xfe80
      || segment address 0 &&& 0xffc0 == 0xfec0
      || (segment address 0 == 0x2001 && segment address 1 == 0x0db8) then false
  else (toIpv4Mapped address).all ipv4IsPublic

def hostIsPublic : Host → Bool
  | .domain name => !isLocalhost name
  | .ipv4 address => ipv4IsPublic address
  | .ipv6 address => ipv6IsPublic address

/-- `host_is_connectable`, with `ip_is_connectable` for the two kinds of address. -/
def hostIsConnectable : Host → Bool
  | .domain name => !name.isEmpty
  | .ipv4 address => !(address == 0) && !isMulticastIpv4 address
  | .ipv6 address => !(address == 0) && !isMulticastIpv6 address

def validateUrlPolicy (url : Url) (policy : NetworkPolicy) : Except TransportErrorKind Unit :=
  match url.host with
  | none => .error .invalidRequest
  | some host =>
      match policy with
      | .publicOnly =>
          if url.scheme != "https" || !hostIsPublic host then .error .policy else .ok ()
      | .privateAllowed =>
          if (url.scheme != "http" && url.scheme != "https") || !hostIsConnectable host
            then .error .policy
          else .ok ()
      | .loopbackOnly =>
          if (url.scheme != "http" && url.scheme != "https") || !hostIsLoopback host
            then .error .policy
          else .ok ()

/-! ## The two classifiers side by side -/

/-- The IPv4 ranges that the transport holds back and the validator takes for public ones: the
    shared address space, the benchmarking block, and everything above multicast. -/
def isReservedIpv4 (address : BitVec 32) : Bool :=
  let a := octet address 0
  let b := octet address 1
  (a == 100 && 64 ≤ b && b ≤ 127) || (a == 198 && (b == 18 || b == 19)) || 240 ≤ a

/-- The same for IPv6: the site-local and documentation blocks, and what is mapped from IPv4. -/
def isReservedIpv6 : Bool :=
  segment address 0 &&& 0xffc0 == 0xfec0 ||
    (segment address 0 == 0x2001 && segment address 1 == 0x0db8)
    || (toIpv4Mapped address).any isReservedIpv4

def isReserved : Host → Bool
  | .domain _ => false
  | .ipv4 address => isReservedIpv4 address
  | .ipv6 address => isReservedIpv6 address

/-- The addresses no connection can be made to. -/
def isUnaddressable : Host → Bool
  | .domain _ => false
  | .ipv4 address => address == 0 || (224 ≤ octet address 0 && octet address 0 ≤ 239)
  | .ipv6 address => address == 0 || octet address 0 == 0xff

/-- A host that needs no name service: an address, or the machine itself. -/
def isLiteral : Host → Bool
  | .domain name => isLocalhost name
  | .ipv4 _ => true
  | .ipv6 _ => true

theorem ipv4IsPublic_eq (address : BitVec 32) :
    ipv4IsPublic address = (!isPrivateIpv4 address && !isReservedIpv4 address) := by
  simp only [ipv4IsPublic, isPrivateIpv4, isReservedIpv4, isLoopbackIpv4, isMulticastIpv4]
  grind

theorem segment_zero :
    segment address 0 = address.extractLsb' 120 8 ++ address.extractLsb' 112 8 := by
  have h := @extractLsb'_append_extractLsb'_eq_extractLsb' 128 120 112 8 8 address rfl
  exact h.symm

theorem append_eq_append_iff {a b c d : BitVec 8} : a ++ b = c ++ d ↔ a = c ∧ b = d := by
  constructor
  · intro h
    have hlow := congrArg (setWidth 8) h
    rw [setWidth_append_eq_right, setWidth_append_eq_right] at hlow
    subst hlow
    exact ⟨(append_left_inj b).mp h, rfl⟩
  · rintro ⟨rfl, rfl⟩
    rfl

/-- A mask on the first segment is a mask on each of its two octets. -/
theorem segment_zero_and_eq_iff (m n c d : BitVec 8) :
    segment address 0 &&& (m ++ n) = c ++ d ↔
      octet address 0 &&& m.toNat = c.toNat ∧ octet address 1 &&& n.toNat = d.toNat := by
  rw [segment_zero, and_append, append_eq_append_iff, ← toNat_inj, toNat_and,
    ← toNat_inj, toNat_and]
  rfl

theorem isIpv6UniqueLocal_eq :
    isIpv6UniqueLocal address = (segment address 0 &&& 0xfe00 == 0xfc00) := by
  have h := segment_zero_and_eq_iff address 0xfe 0 0xfc 0
  rw [Bool.eq_iff_iff, isIpv6UniqueLocal, beq_iff_eq, beq_iff_eq]
  refine Iff.trans ?_ h.symm
  simp

theorem isIpv6LinkLocal_eq :
    isIpv6LinkLocal address = (segment address 0 &&& 0xffc0 == 0xfe80) := by
  have h := segment_zero_and_eq_iff address 0xff 0xc0 0xfe 0x80
  have hself : octet address 0 &&& 0xff = octet address 0 :=
    Nat.and_two_pow_sub_one_of_lt_two_pow (address.extractLsb' 120 8).isLt
  rw [Bool.eq_iff_iff, isIpv6LinkLocal, Bool.and_eq_true, beq_iff_eq, beq_iff_eq, beq_iff_eq]
  refine Iff.trans ?_ h.symm
  rw [show (0xff : BitVec 8).toNat = 0xff from rfl, hself]
  rfl

theorem ipv6IsPublic_eq :
    ipv6IsPublic address = (!isPrivateIpv6 address && !isReservedIpv6 address) := by
  have hite : ∀ b c : Bool, (if b = true then false else c) = (!b && c) := by decide
  rw [ipv6IsPublic, hite, Bool.eq_iff_iff]
  simp only [isPrivateIpv6, isReservedIpv6, isIpv6UniqueLocal_eq, isIpv6LinkLocal_eq,
    isLoopbackIpv6, isMulticastIpv6]
  cases toIpv4Mapped address with
  | none =>
    simp only [Option.all_none, Option.any_none, Bool.and_eq_true, Bool.not_eq_true',
      Bool.or_eq_false_iff]
    tauto
  | some mapped =>
    simp only [Option.all_some, Option.any_some, ipv4IsPublic_eq, Bool.and_eq_true,
      Bool.not_eq_true', Bool.or_eq_false_iff]
    tauto

/-- What the transport takes for public is what the validator does, less the reserved ranges. -/
theorem hostIsPublic_of_not_private (h : isPrivateHost host = false) :
    hostIsPublic host = !isReserved host := by
  cases host with
  | domain name =>
    simp only [isPrivateHost, Bool.or_eq_false_iff] at h
    simp only [hostIsPublic, isReserved, isLocalhost, h.1.1.1]
  | ipv4 address =>
    simp only [isPrivateHost] at h
    simp only [hostIsPublic, isReserved, ipv4IsPublic_eq, h, Bool.not_false, Bool.true_and]
  | ipv6 address =>
    simp only [isPrivateHost] at h
    simp only [hostIsPublic, isReserved, ipv6IsPublic_eq, h, Bool.not_false, Bool.true_and]

theorem hostIsConnectable_of_literal (h : isLiteral host = true) :
    hostIsConnectable host = !isUnaddressable host := by
  cases host with
  | domain name =>
    have hname : name ≠ "" := by
      rintro rfl
      exact absurd h (by decide +kernel)
    simp [hostIsConnectable, isUnaddressable, hname]
  | ipv4 address => simp only [hostIsConnectable, isUnaddressable, isMulticastIpv4, Bool.not_or]
  | ipv6 address => simp only [hostIsConnectable, isUnaddressable, isMulticastIpv6, Bool.not_or]

/-- A loopback host is a private one. -/
theorem isPrivateHost_of_loopback (h : hostIsLoopback host = true) : isPrivateHost host = true := by
  cases host with
  | domain name =>
    simp only [hostIsLoopback, isLocalhost] at h
    simp only [isPrivateHost, h, Bool.true_or]
  | ipv4 address =>
    simp only [hostIsLoopback, isLoopbackIpv4] at h
    simp only [isPrivateHost, isPrivateIpv4, h, Bool.or_true, Bool.true_or]
  | ipv6 address =>
    simp only [hostIsLoopback, isLoopbackIpv6] at h
    simp only [isPrivateHost, isPrivateIpv6, h, Bool.or_true, Bool.true_or]

/-! ## The policy check on its own -/

theorem validateUrlPolicy_publicOnly (hhost : url.host = some host)
    (hscheme : url.scheme = "https") :
    validateUrlPolicy url .publicOnly = .ok () ↔ hostIsPublic host = true := by
  simp [validateUrlPolicy, hhost, hscheme]

theorem validateUrlPolicy_privateAllowed (hhost : url.host = some host)
    (hscheme : url.scheme = "http" ∨ url.scheme = "https") :
    validateUrlPolicy url .privateAllowed = .ok () ↔ hostIsConnectable host = true := by
  rcases hscheme with hscheme | hscheme <;> simp [validateUrlPolicy, hhost, hscheme]

theorem validateUrlPolicy_loopbackOnly (hhost : url.host = some host)
    (hscheme : url.scheme = "http" ∨ url.scheme = "https") :
    validateUrlPolicy url .loopbackOnly = .ok () ↔ hostIsLoopback host = true := by
  rcases hscheme with hscheme | hscheme <;> simp [validateUrlPolicy, hhost, hscheme]

/-! ## Accepted by the validator, accepted by the transport -/

/-- When the transport agrees with the validator about an instance: with the opt-in the address can
    be connected to, a loopback provider keeps its own endpoint, and any other address is not a
    reserved one. -/
def Agreed (definition : ProviderDefinition) (instance_ : ProviderInstanceConfig) (host : Host) :
    Prop :=
  if instance_.allowPrivateNetwork = true then isUnaddressable host = false
  else if definition.endpointPolicy = .loopbackHttp then instance_.endpoint = none
  else isReserved host = false

/-- What is known of the effective endpoint of a validated instance: where it comes from decides
    what was checked about it. -/
theorem effective_endpoint {parseUrl : UrlParser} {definition : ProviderDefinition}
    {instance_ : ProviderInstanceConfig}
    (hbase : validateEndpoint parseUrl definition.baseUrl definition.endpointPolicy = .ok ())
    (hoverride : validateOverride parseUrl instance_ definition = .ok ())
    (hbrace : hasBrace (instance_.endpoint.getD definition.baseUrl) = false) :
    ∃ url host, parseUrl (instance_.endpoint.getD definition.baseUrl) = some url ∧
      url.host = some host ∧ (url.scheme = "http" ∨ url.scheme = "https") ∧
      (instance_.allowPrivateNetwork = false →
        if definition.endpointPolicy = .loopbackHttp ∧ instance_.endpoint = none then
          hostIsLoopback host = true
        else url.scheme = "https" ∧ isPrivateHost host = false) := by
  cases hendpoint : instance_.endpoint with
  | none =>
    rw [hendpoint] at hbrace
    obtain ⟨url, host, hurl, hhost, hchecked⟩ := validateEndpoint_inv hbase hbrace
    refine ⟨url, host, hurl, hhost, ?_⟩
    by_cases hpolicy : definition.endpointPolicy = .loopbackHttp
    · rw [if_pos hpolicy] at hchecked
      refine ⟨hchecked.1, ?_⟩
      intro _
      rw [if_pos ⟨hpolicy, rfl⟩]
      exact hchecked.2
    · rw [if_neg hpolicy] at hchecked
      refine ⟨Or.inr hchecked.1, ?_⟩
      intro _
      rw [if_neg fun h => hpolicy h.1]
      exact hchecked
  | some endpoint =>
    obtain ⟨url, host, hurl, hhost, hchecked⟩ := validateOverride_inv hoverride hendpoint
    refine ⟨url, host, hurl, hhost, ?_⟩
    by_cases hprivate : isPrivateHost host = true
    · rw [if_pos hprivate] at hchecked
      refine ⟨hchecked.1, ?_⟩
      intro hclosed
      rw [hchecked.2] at hclosed
      cases hclosed
    · rw [if_neg hprivate] at hchecked
      refine ⟨Or.inr hchecked, ?_⟩
      intro _
      rw [if_neg fun h => absurd h.2 (by simp)]
      exact ⟨hchecked, by simpa using hprivate⟩

/-- **Which accepted endpoints are usable.** Every enabled instance of a built snapshot has a
    provider whose endpoint parses and names a host; where that host is an address or the local
    machine, the transport accepts the endpoint under the policy of the provider exactly if the two
    classifiers agree about it. -/
theorem validateUrlPolicy_iff {parseUrl : UrlParser} {file : CatalogFile}
    {catalog : ProviderCatalog} {providers : ProviderConfig} {routing : RoutingConfig}
    {s : RuntimeSnapshot} (hcatalog : ProviderCatalog.validate parseUrl file = .ok catalog)
    (hbuild : RuntimeSnapshot.build parseUrl catalog providers routing = .ok s) :
    ∀ instance_ ∈ providers.instances, instance_.enabled = true →
      ∃ definition provider url host, catalog.provider instance_.catalogId.text = some definition ∧
        s.providers[instance_.id]? = some provider ∧ parseUrl provider.endpoint = some url ∧
        url.host = some host ∧
        (isLiteral host = true →
          (validateUrlPolicy url (networkPolicy provider.endpointAccess) = .ok () ↔
            Agreed definition instance_ host)) := by
  intro instance_ hin henabled
  obtain ⟨provider, hprovider, definition, hdef, hcompiled⟩ := build_enabled hbuild hin henabled
  obtain ⟨hbrace, rfl⟩ := buildProvider_inv hcompiled
  obtain ⟨⟨v, hvalid⟩, _⟩ := build_inv hbuild
  obtain ⟨definition', hdef', hoverride⟩ :=
    (validateProviderConfiguration_inv hvalid).2 instance_ hin
  rw [hdef] at hdef'
  cases hdef'
  have hbase := validate_endpoints hcatalog definition (List.mem_of_find?_eq_some hdef)
  obtain ⟨url, host, hurl, hhost, hscheme, hclosed⟩ := effective_endpoint hbase hoverride hbrace
  refine ⟨definition, _, url, host, hdef, hprovider, hurl, hhost, ?_⟩
  intro hliteral
  simp only [Agreed, EndpointAccess.fromConfiguration]
  by_cases hallow : instance_.allowPrivateNetwork = true
  · rw [if_pos hallow, if_pos hallow, networkPolicy, validateUrlPolicy_privateAllowed hhost hscheme,
      hostIsConnectable_of_literal hliteral]
    simp
  rw [if_neg hallow, if_neg hallow]
  specialize hclosed (by simpa using hallow)
  by_cases hpolicy : definition.endpointPolicy = .loopbackHttp
  · rw [if_pos hpolicy, if_pos hpolicy, networkPolicy, validateUrlPolicy_loopbackOnly hhost hscheme]
    by_cases hendpoint : instance_.endpoint = none
    · rw [if_pos ⟨hpolicy, hendpoint⟩] at hclosed
      exact ⟨fun _ => hendpoint, fun _ => hclosed⟩
    · -- An override without the opt-in is a public host, and no public host is a loopback one.
      rw [if_neg fun h => hendpoint h.2] at hclosed
      refine ⟨fun hloopback => ?_, fun h => absurd h hendpoint⟩
      rw [isPrivateHost_of_loopback hloopback] at hclosed
      cases hclosed.2
  · rw [if_neg fun h => hpolicy h.1] at hclosed
    rw [if_neg hpolicy, if_neg hpolicy, networkPolicy, validateUrlPolicy_publicOnly hhost hclosed.1,
      hostIsPublic_of_not_private hclosed.2]
    simp

/-! ## An endpoint the transport never accepts -/

def qwenCloudDefinition : ProviderDefinition where
  id := "qwen-cloud"
  label := "Qwen Cloud"
  adapter := .openAiChat
  baseUrl := "https://token-plan.ap-southeast-1.maas.aliyuncs.com/compatible-mode/v1"
  authKind := .key
  endpointPolicy := .publicHttps
  modelSource := .none
  aliases := []
  models := []
  defaultModel := none
  allowEndpointOverride := true
  keyOptional := false
  allowKeyAuthOverride := false
  reasoningEfforts := []
  reasoningEffortMap := {}
  capabilities := ⟨true, true, true, true, false, true, false⟩

def qwenCloudFile : CatalogFile := ⟨1, "97e7326f89bcfbb29a2c73250cb25eb801d066b6",
    [qwenCloudDefinition]⟩

/-- What the parser makes of `https://a.b.c.d/v1`. -/
def addressUrl (text : String) (address : BitVec 32) : Url where
  serialization := text
  scheme := "https"
  username := ""
  password := none
  host := some (.ipv4 address)
  port := some 443
  path := "/v1"
  query := none
  fragment := none

/-- The `url` crate on plain URLs and on an address of the shared address space and a public one. -/
def addressUrls : UrlParser := fun text =>
  if text = "https://100.64.0.1/v1" then some (addressUrl text 0x64400001)
  else if text = "https://8.8.8.8/v1" then some (addressUrl text 0x08080808)
  else parsePlain text

def qwenCloudId : ProviderId := ⟨"qwen-cloud", by decide⟩

/-- One instance of the entry, with its endpoint overridden and without the opt-in. -/
def qwenCloudAt (endpoint : String) : ProviderConfig where
  instances := [⟨qwenCloudId, qwenCloudId, true, some endpoint, false⟩]
  accounts := [⟨⟨"primary", isValid_primary⟩, qwenCloudId, true,
    .apiKey ⟨"secret:00000000-0000-4000-8000-000000000001"⟩⟩]

theorem validate_qwenCloudFile :
    ProviderCatalog.validate addressUrls qwenCloudFile = .ok ⟨[qwenCloudDefinition]⟩ :=
  validate_of_isOk (by decide +kernel)

/-- The equivalence at a public address. -/
theorem validateUrlPolicy_iff_publicAddress :
    ∃ s, RuntimeSnapshot.build addressUrls ⟨[qwenCloudDefinition]⟩
        (qwenCloudAt "https://8.8.8.8/v1") {} = .ok s ∧
      ∀ instance_ ∈ (qwenCloudAt "https://8.8.8.8/v1").instances, instance_.enabled = true →
        ∃ definition provider url host,
          ProviderCatalog.provider ⟨[qwenCloudDefinition]⟩ instance_.catalogId.text =
          some definition ∧ s.providers[instance_.id]? = some provider ∧
          addressUrls provider.endpoint = some url ∧ url.host = some host ∧
          (isLiteral host = true →
            (validateUrlPolicy url (networkPolicy provider.endpointAccess) = .ok () ↔
              Agreed definition instance_ host)) := by
  have hok : (build addressUrls ⟨[qwenCloudDefinition]⟩
      (qwenCloudAt "https://8.8.8.8/v1") {}).isOk = true := by decide +kernel
  obtain ⟨s, hs⟩ := Lib.Outcome.exists_of_isOk hok
  exact ⟨s, hs, validateUrlPolicy_iff validate_qwenCloudFile hs⟩

/-- The validator takes `100.64.0.1` for a public address and the transport does not, so every
    request to this provider fails with a policy error. -/
theorem rejected_sharedAddress :
    ∃ s provider url,
      ProviderCatalog.validate addressUrls qwenCloudFile = .ok ⟨[qwenCloudDefinition]⟩ ∧
      RuntimeSnapshot.build addressUrls ⟨[qwenCloudDefinition]⟩
        (qwenCloudAt "https://100.64.0.1/v1") {} = .ok s ∧
      s.providers[qwenCloudId]? = some provider ∧ provider.endpoint = "https://100.64.0.1/v1" ∧
      addressUrls provider.endpoint = some url ∧ url.host = some (.ipv4 0x64400001) ∧
      url.port = some 443 ∧ validateUrlPolicy url (networkPolicy provider.endpointAccess) =
        .error .policy := by
  have hok : (build addressUrls ⟨[qwenCloudDefinition]⟩
      (qwenCloudAt "https://100.64.0.1/v1") {}).isOk = true := by decide +kernel
  obtain ⟨s, hs⟩ := Lib.Outcome.exists_of_isOk hok
  obtain ⟨provider, hprovider, definition, hdef, hcompiled⟩ :=
    build_enabled hs List.mem_cons_self rfl
  cases hdef
  obtain ⟨_, rfl⟩ := buildProvider_inv hcompiled
  exact ⟨s, _, _, validate_qwenCloudFile, hs, hprovider, rfl, rfl, rfl, rfl, by decide +kernel⟩

end Wokcore.Engine
