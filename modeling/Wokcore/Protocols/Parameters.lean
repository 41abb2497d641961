import Wokcore.Protocols.Conversation

/-!
# The parameters of an Anthropic request

The token limit, the thinking option and the system prompt of a client's Anthropic request on a
route back to the Anthropic protocol. The encoder looks for the limit under an extension that the
Anthropic decoder never writes, knows of the thinking option only whether there is one, and has no
place for a system prompt. So the limit that goes out is the default, thinking is on where it was
mentioned at all, and the system prompt is not one any more.
-/

set_option autoImplicit false

namespace Wokcore.Protocols

open Lib Inbound Upstream Read Option

variable {wire : AnthropicRequest} {request : CanonicalRequest} {thinking : AnthropicThinkingConfig}
  {P : Parsers} {document : Json}

/-- The budget of a request that asks for thinking. -/
def enabledBudget (wire : AnthropicRequest) : Option (Option Nat) :=
  (wire.thinking.filter (·.kind = "enabled")).map AnthropicThinkingConfig.budgetTokens

/-- The text of the system prompt. -/
def systemText (wire : AnthropicRequest) : String :=
  .join (wire.system.toList.flatMap anthropicContentTexts)

/-- The parameters of `sent` are those of `client`: the limit, thinking enabled or not and with
    which budget, and the system text. -/
structure ParametersKept (client sent : AnthropicRequest) : Prop where
  maxTokens : sent.maxTokens = client.maxTokens
  thinking : enabledBudget sent = enabledBudget client
  system : systemText sent = systemText client

/-- The request of an Anthropic body. -/
def bodyRequest (F : FloatReader) (body : Bytes) : Option AnthropicRequest :=
  (fromSlice F body).bind readAnthropicRequest

/-! ## What the encoder finds -/

/-- The Anthropic decoder writes two extensions, and the token limit is not one of them. -/
theorem anthropicMaxTokens_of_decoded (h : AnthropicDecoded P document wire request) :
    anthropicMaxTokens request = 4096 := by
  obtain ⟨records, he⟩ := h.extensions
  have hnone : request.extensions.get? "max_output_tokens" = none := by
    unfold anthropicExtensions at he
    split at he
    · rw [← Except.ok.inj he]
      simp [EntryMap.get?_insert]
    · obtain ⟨_, -, he⟩ := Outcome.do_eq_ok.mp he
      rw [← Outcome.pure_eq_ok.mp he]
      simp [EntryMap.get?_insert]
  rw [anthropicMaxTokens, hnone]
  rfl

theorem budget_lt {budget : Nat} (h : readAnthropicRequest document = some wire)
    (ht : wire.thinking = some thinking) (hb : thinking.budgetTokens = some budget) :
    budget < 2 ^ 64 := by
  simp only [readAnthropicRequest, Outcome.do_some] at h
  obtain ⟨fs, hfs, _, -, _, -, _, -, _, -, _, -, _, -, _, -, thinking', hth, rfl⟩ := h
  cases ht
  obtain ⟨j, -, hread⟩ := of_maybe hth
  simp only [readAnthropicThinkingConfig, Outcome.do_some] at hread
  obtain ⟨gs, -, _, -, budget', hbudget, rfl⟩ := hread
  cases hb
  obtain ⟨x, -, hx⟩ := of_maybe hbudget
  exact asU64_lt hx

/-- A budget is sent as it came, and the default where none came. -/
theorem anthropicThinkingBudget_of_decoded (hread : readAnthropicRequest document = some wire)
    (h : AnthropicDecoded P document wire request) (ht : wire.thinking = some thinking)
    (hpos : ∀ budget ∈ thinking.budgetTokens, 0 < budget) :
    anthropicThinkingBudget request = thinking.budgetTokens.getD 1024 := by
  rw [anthropicThinkingBudget, h.reasoning, ht]
  cases hb : thinking.budgetTokens with
  | none => simp [anthropicReasoning, hb]
  | some budget =>
    have hlt := budget_lt hread ht hb
    have hpos := hpos budget hb
    have htree : (Value.ofNat budget).tree = .num (.nat (.ofNat budget)) := rfl
    have hnat : (UInt64.ofNat budget).toNat = budget := UInt64.toNat_ofNat_of_lt' hlt
    simp [anthropicReasoning, hb, EntryMap.get?_insert, htree, hnat, Option.filter, hpos]

/-! ## The parameters of what is sent -/

/-- The check of the thinking option leaves two cases: it is enabled with a budget, or it has
    none. -/
theorem validateThinking_ok {maxTokens : Option Nat} {u : Unit}
    (h : validateThinking thinking maxTokens true = .ok u) :
    (thinking.kind = "enabled" ∧ ∃ budget, thinking.budgetTokens = some budget ∧ 1024 ≤ budget ∧
        ∀ max ∈ maxTokens, budget < max) ∨
      thinking.kind ≠ "enabled" ∧ thinking.budgetTokens = none := by
  unfold validateThinking at h
  split at h
  · next hk =>
    left
    cases hb : thinking.budgetTokens with
    | none => rw [hb] at h; cases h
    | some budget =>
      rw [hb] at h
      have h := Result.requireThat_eq_ok.mp h
      simp only [Bool.not_eq_true', Bool.or_eq_false_iff, decide_eq_false_iff_not, not_lt,
        Bool.true_and] at h
      refine ⟨hk, budget, rfl, h.1, fun max hmax => ?_⟩
      rw [hmax] at h
      simpa using h.2
  · next hk =>
    split at h
    · have h := Result.requireThat_eq_ok.mp h
      exact .inr ⟨hk, by simpa using h⟩
    · cases h

theorem thinking_kept_iff (hread : readAnthropicRequest document = some wire)
    (h : AnthropicDecoded P document wire request) :
    enabledBudget (anthropicWire request) = enabledBudget wire ↔
      ∀ thinking ∈ wire.thinking, thinking.kind = "enabled" := by
  cases ht : wire.thinking with
  | none =>
    have hr : request.reasoning = none := by rw [h.reasoning, ht]; rfl
    simp [enabledBudget, anthropicWire, ht, hr]
  | some thinking =>
    have hr : request.reasoning.isSome = true := by rw [h.reasoning, ht]; rfl
    have hsent : enabledBudget (anthropicWire request) =
        some (some (anthropicThinkingBudget request)) := by
      simp [enabledBudget, anthropicWire, hr]
    rw [hsent, enabledBudget, ht]
    rcases validateThinking_ok (h.valid.thinking thinking ht) with ⟨hk, budget, hb, hmin,
      -⟩ | ⟨hk, hb⟩
    · have hbudget := anthropicThinkingBudget_of_decoded hread h ht (by rw [hb]; simp; omega)
      rw [hbudget, hb]
      simp [hk, hb]
    · simp [hk]

theorem parametersKept_anthropicWire_iff (hread : readAnthropicRequest document = some wire)
    (h : AnthropicDecoded P document wire request) :
    ParametersKept wire (anthropicWire request) ↔
      wire.maxTokens = some 4096 ∧ (∀ thinking ∈ wire.thinking, thinking.kind = "enabled") ∧
        systemText wire = "" := by
  have hmax : (anthropicWire request).maxTokens = some 4096 := by
    rw [anthropicWire, anthropicMaxTokens_of_decoded h]
  have hsystem : systemText (anthropicWire request) = "" := rfl
  constructor
  · intro hkept
    exact ⟨hkept.maxTokens ▸ hmax, (thinking_kept_iff hread h).mp hkept.thinking,
      hkept.system ▸ hsystem⟩
  · rintro ⟨hclient, hthinking, htext⟩
    exact ⟨hmax.trans hclient.symm, (thinking_kept_iff hread h).mpr hthinking,
      hsystem.trans htext.symm⟩

/-- **An Anthropic route keeps the parameters of a request only where they are its own.** What the
    route sends has the limit, the thinking option and the system text of the client exactly if the
    limit is the default one, thinking is enabled or not mentioned, and there is no system text. -/
theorem parameters_kept_iff {P : Parsers} {adapter : UpstreamAdapter} {requestId : String}
    {json sent : Bytes} (hp : adapter.protocol = .anthropic)
    (h : ClientProtocol.anthropic.route P adapter requestId json = .ok sent) :
    ∃ client heard, bodyRequest P.floats json = some client ∧
      bodyRequest exactFloats sent = some heard ∧ (ParametersKept client heard ↔
        client.maxTokens = some 4096 ∧ (∀ thinking ∈ client.thinking, thinking.kind = "enabled") ∧
          systemText client = "") := by
  obtain ⟨request, out, hdecode, hbuild, rfl⟩ := route_ok h
  obtain ⟨-, hbody, -⟩ := UpstreamAdapter.buildRequest_ok (p := .anthropic) hp hbuild
  have hback := Json.fromSlice_exact (decode_nested hdecode).depth_document
  obtain ⟨document, wire, hdoc, hwire, hdecode⟩ := decodeAnthropicMessage_ok hdecode
  refine ⟨wire, anthropicWire request, by rw [bodyRequest, hdoc, bind_some, hwire], ?_,
    parametersKept_anthropicWire_iff hwire (decodeAnthropicWire_ok hdecode)⟩
  rw [bodyRequest, hbody, hback, bind_some, ClientProtocol.document,
    readAnthropicRequest_anthropicDocument]

/-- A request with the default limit and a budget for thinking. -/
def thoughtfulGreeting : Json :=
  .obj [("model", .str "m"), ("max_tokens", .ofNat 4096),
    ("thinking", .obj [("type", .str "enabled"), ("budget_tokens", .ofNat 2048)]),
    ("messages", .arr [spoken "user" "hi"])]

theorem parameters_kept_thoughtful :
    ∃ sent client heard,
      ClientProtocol.anthropic.route plainParsers (plainAdapter .anthropic) "r"
        thoughtfulGreeting.toVec = .ok sent ∧
      bodyRequest plainParsers.floats thoughtfulGreeting.toVec = some client ∧
      bodyRequest exactFloats sent = some heard ∧ enabledBudget client = some (some 2048) ∧
      ParametersKept client heard := by
  have hread : fromSlice plainParsers.floats thoughtfulGreeting.toVec = some thoughtfulGreeting :=
    Json.fromSlice_exact (by decide +kernel)
  have hroute : ClientProtocol.anthropic.route plainParsers (plainAdapter .anthropic) "r"
      thoughtfulGreeting.toVec = .ok (anthropicDocument { plainRequest [.text "hi"] with
        reasoning := some ⟨some "enabled", EntryMap.empty.insert "budget_tokens" (.ofNat 2048)⟩ }
        .text).norm.toVec :=
    route_toVec hread (by decide +kernel) (by decide +kernel)
  obtain ⟨client, heard, hclient, hheard, hiff⟩ := parameters_kept_iff rfl hroute
  rw [bodyRequest, hread, bind_some] at hclient
  have hwire : (readAnthropicRequest thoughtfulGreeting).any (fun wire =>
      enabledBudget wire = some (some 2048) ∧ wire.maxTokens = some 4096 ∧
        (∀ thinking ∈ wire.thinking, thinking.kind = "enabled") ∧ systemText wire = "") = true := by
    decide +kernel
  rw [hclient, any_some, decide_eq_true_eq] at hwire
  rw [bodyRequest, hread]
  exact ⟨_, client, heard, hroute, hclient, hheard, hwire.1, hiff.mpr hwire.2⟩

/-- A request with a small limit, thinking switched off, and a system prompt. -/
def limitedGreeting : Json :=
  .obj [("model", .str "m"), ("max_tokens", .ofNat 10), ("system", .str "be brief"),
    ("thinking", .obj [("type", .str "disabled")]),
    ("messages", .arr [spoken "user" "hi"])]

/-- The upstream is asked for four hundred times the tokens, with thinking on and no system
    prompt. -/
theorem parameters_replaced_on_route :
    (bodyRequest exactFloats limitedGreeting.toVec).map (fun wire =>
        (wire.maxTokens, enabledBudget wire, systemText wire)) = some (some 10, none, "be brief") ∧
    ∃ sent, ClientProtocol.anthropic.route plainParsers (plainAdapter .anthropic) "r"
        limitedGreeting.toVec = .ok sent ∧
      (bodyRequest exactFloats sent).map (fun wire =>
          (wire.maxTokens, enabledBudget wire, systemText wire)) =
        some (some 4096, some (some 1024), "") := by
  have hread : fromSlice exactFloats limitedGreeting.toVec = some limitedGreeting :=
    Json.fromSlice_exact (by decide +kernel)
  refine ⟨?_, (anthropicDocument { plainRequest [.text "be brief", .text "hi"] with
    reasoning := some ⟨some "disabled", .empty⟩ } .text).norm.toVec,
    route_toVec hread (by decide +kernel) (by decide +kernel), ?_⟩
  · rw [bodyRequest, hread]
    decide +kernel
  · rw [bodyRequest, Json.fromSlice_exact (by decide +kernel)]
    decide +kernel

end Wokcore.Protocols
