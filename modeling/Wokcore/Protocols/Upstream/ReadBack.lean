import Wokcore.Protocols.Inbound.Chat
import Wokcore.Protocols.Inbound.Responses
import Wokcore.Protocols.Inbound.Anthropic
import Wokcore.Protocols.Upstream.Request

/-!
# What the built bodies say

For the three protocols the gateway also serves, the wire type that the client decoder of the
protocol would read out of a built document: `chatWire`, `responsesWire` and `anthropicWire`. The
reading theorems hold for every canonical request.
-/

set_option autoImplicit false

namespace Wokcore.Protocols.Upstream

open Lib Inbound Read ReasoningOptions

variable (request : CanonicalRequest)

/-- What `Option<Value>` reads: `null` is the missing value. -/
def present (v : Value) : Option Value := if v.tree = .null then none else some v

theorem option_value_norm (v : Value) : option value v.tree.norm = some (present v) := by
  have h := v.norm_tree_toValue
  rw [v.normal] at h ⊢
  unfold present
  cases ht : v.tree with
  | null => rfl
  | _ => rw [ht] at h; simp [option, value, h]

theorem present_of_isObject {v : Value} (h : v.tree.isObject = true) : present v = some v := by
  unfold present
  rw [if_neg]
  intro hn
  rw [hn] at h
  exact absurd h (by simp [Json.isObject])

theorem option_str_orNull (s : Option String) : option str (orNull s).norm = some s := by
  cases s <;> rfl

/-! ## Chat -/

def chatWireMessage : InputItem → ChatMessage
  | .text text => .user (.text text) none .empty
  | .imageUrl url detail =>
    .user (.parts [.image ⟨url.serialization, some (detail.getD .auto), .empty⟩ .empty]) none .empty
  | .toolResult callId output => .tool (.text (.ofList output.tree.print)) callId .empty

variable (tool : ToolDefinition)

def chatWireTool : ChatTool where
  kind := "function"
  function := {
    name := tool.name
    description := tool.description
    parameters := present tool.inputSchema
    extra := .empty }
  extra := .empty

def chatWire : ChatRequest where
  model := request.model
  messages := request.input.map chatWireMessage
  tools := request.tools.map chatWireTool
  parallelToolCalls := none
  stream := request.stream
  streamOptions := if request.stream then some ⟨some true, .empty⟩ else none
  reasoningEffort := request.reasoning.bind effort
  extra := .empty

theorem readImageDetail_imageDetail (detail : Option ImageDetail) :
    readImageDetail (.str (imageDetail detail)) = some (detail.getD .auto) := by
  cases detail with
  | none => rfl
  | some d => cases d <;> rfl

theorem readChatMessage_chatMessage (item : InputItem) :
    readChatMessage (chatMessage item).norm = some (chatWireMessage item) := by
  cases item with
  | text | toolResult =>
    simp [chatMessage, readChatMessage, tagged, required, maybe, lookup_cons_ite, variant,
      chatRoles, readChatContent, chatWireMessage]
  | imageUrl url detail =>
    simp [chatMessage, readChatMessage, tagged, required, maybe, lookup_cons_ite, variant,
      chatRoles, readChatContent, chatWireMessage, list, readChatUserPart, readChatImageUrl,
      readImageDetail_imageDetail]

@[simp] theorem toolsMember_nil : toolsMember [] = [] := rfl

theorem toolsMember_of_ne_nil {tools : List ToolDefinition} (h : tools ≠ [])
    (encode : ToolDefinition → Json) :
    toolsMember (tools.map encode) = [("tools", .arr (tools.map encode))] := by
  simp [toolsMember, h]

theorem readChatTool_chatTool : readChatTool (chatTool tool).norm = some (chatWireTool tool) := by
  simp [chatTool, readChatTool, readChatFunction, required, maybe, lookup_cons_ite,
    option_str_orNull, option_value_norm, chatWireTool]

theorem readChatRequest_chatDocument :
    readChatRequest (chatDocument request).norm = some (chatWire request) := by
  have hmessages := list_norm chatWireMessage request.input
    fun item _ => readChatMessage_chatMessage item
  have htools := list_norm chatWireTool request.tools
    fun tool _ => readChatTool_chatTool tool
  simp only [Json.norm_arr, List.map_map] at hmessages htools
  -- which optional members are there decides the keys of the document
  by_cases ht : request.tools = [] <;> cases hs : request.stream <;>
    cases he : request.reasoning.bind effort <;>
    simp [chatDocument, toolsMember_of_ne_nil, effortMember, readChatRequest, required, maybe,
      withDefault, lookup_cons_ite, hs, he, ht, hmessages, htools, chatWire,
      readChatStreamOptions]

/-! ## Responses -/

def responsesWireItem : InputItem → ResponsesInputItem
  | .text text => .message {
      kind := none
      role := .user
      content := .parts [.text text .empty]
      extra := .empty }
  | .imageUrl url detail => .message {
      kind := none
      role := .user
      content := .parts [.image url.serialization (some (detail.getD .auto)) .empty]
      extra := .empty }
  | .toolResult callId output => .toolResult {
      kind := "function_call_output"
      callId
      output
      extra := .empty }

def responsesWireTool : ResponsesTool where
  kind := "function"
  name := tool.name
  description := tool.description
  parameters := tool.inputSchema
  extra := EntryMap.empty.insert "strict" (.ofBool false)

def responsesWire : ResponsesRequest where
  model := request.model
  input := .items (request.input.map responsesWireItem)
  tools := request.tools.map responsesWireTool
  stream := request.stream
  reasoning := (request.reasoning.bind effort).map fun effort => ⟨some effort, .empty⟩
  previousResponseId := none
  extra := .empty

theorem readResponsesInputItem_responsesItem (item : InputItem) :
    readResponsesInputItem (responsesItem item).norm = some (responsesWireItem item) := by
  cases item with
  | text text =>
    simp [responsesItem, readResponsesInputItem, readResponsesMessage, tagged, required, maybe,
      lookup_cons_ite, variant, Read.unit, responsesRoles, readResponsesMessageContent, list,
      readResponsesContentPart, responsesWireItem]
  | imageUrl url detail =>
    simp [responsesItem, readResponsesInputItem, readResponsesMessage, tagged, required, maybe,
      lookup_cons_ite, variant, Read.unit, responsesRoles, readResponsesMessageContent, list,
      readResponsesContentPart, responsesWireItem, readImageDetail_imageDetail]
  | toolResult callId output =>
    simp [responsesItem, readResponsesInputItem, readResponsesMessage, readResponsesTextItem,
      readResponsesImageItem, readResponsesToolResult, required, maybe, lookup_cons_ite,
      responsesWireItem, value, output.norm_tree_toValue]

theorem readResponsesTool_responsesTool :
    readResponsesTool (responsesTool tool).norm = some (responsesWireTool tool) := by
  simp [responsesTool, readResponsesTool, required, maybe, lookup_cons_ite, value,
    option_str_orNull, tool.inputSchema.norm_tree_toValue, responsesWireTool, rest_valueMembers_eq]
  rfl

theorem readResponsesRequest_responsesDocument :
    readResponsesRequest (responsesDocument request).norm = some (responsesWire request) := by
  have hinput := list_norm responsesWireItem request.input
    fun item _ => readResponsesInputItem_responsesItem item
  have htools := list_norm responsesWireTool request.tools
    fun tool _ => readResponsesTool_responsesTool tool
  simp only [Json.norm_arr, List.map_map] at hinput htools
  by_cases ht : request.tools = [] <;>
    cases he : request.reasoning.bind effort <;>
    simp [responsesDocument, toolsMember_of_ne_nil, effortMember, readResponsesRequest, required,
      maybe, withDefault, lookup_cons_ite, he, ht, readResponsesInput, hinput, htools,
      responsesWire, readResponsesReasoning]

/-! ## Anthropic -/

def anthropicWireBlock : InputItem → AnthropicKnownContentBlock
  | .text text => .text text .empty
  | .imageUrl url _ => .image (.url url.serialization .empty) .empty
  | .toolResult callId output => .toolResult callId (present output) none .empty

def anthropicWireTool : AnthropicTool where
  name := tool.name
  description := tool.description
  inputSchema := tool.inputSchema
  extra := .empty

def anthropicWire : AnthropicRequest where
  model := request.model
  messages := [{
    role := .user
    content := .blocks (request.input.map fun item => .known (anthropicWireBlock item))
    extra := .empty }]
  maxTokens := some (anthropicMaxTokens request)
  system := none
  tools := request.tools.map fun tool => .client (anthropicWireTool tool)
  toolChoice := none
  stream := request.stream
  thinking := if request.reasoning.isSome then some {
      kind := "enabled"
      budgetTokens := some (anthropicThinkingBudget request)
      extra := .empty }
    else none
  extra := .empty

theorem asU64_lt {j : Json} {n : Nat} (h : j.asU64 = some n) : n < 2 ^ 64 := by
  cases j with
  | num m =>
    cases m with
    | nat m => cases h; exact m.toNat_lt
    | neg | float => cases h
  | null | bool | str | arr | obj => cases h

theorem option_u64_ofNat {n : Nat} (h : n < 2 ^ 64) : option u64 (.ofNat n) = some (some n) := by
  simpa [Json.ofNat, u64] using h

/-- A count read out of a value, or the default where it is missing or zero. -/
theorem countOr_lt {v : Option Nat} {d : Nat} (hd : d < 2 ^ 64) (h : ∀ n ∈ v, n < 2 ^ 64) :
    (v.filter (· > 0)).getD d < 2 ^ 64 := by
  cases v with
  | none => exact hd
  | some n =>
    by_cases hn : n > 0
    · simpa [Option.filter, hn] using h n rfl
    · simpa [Option.filter, hn] using hd

theorem anthropicMaxTokens_lt : anthropicMaxTokens request < 2 ^ 64 := by
  refine countOr_lt (by decide) fun n hn => ?_
  obtain ⟨v, -, hv⟩ := Option.bind_eq_some_iff.mp hn
  exact asU64_lt hv

theorem anthropicThinkingBudget_lt : anthropicThinkingBudget request < 2 ^ 64 := by
  refine countOr_lt (by decide) fun n hn => ?_
  obtain ⟨v, -, hv⟩ := Option.bind_eq_some_iff.mp hn
  exact asU64_lt hv

theorem readContentBlock_anthropicBlock (item : InputItem) :
    readContentBlock (anthropicBlock item).norm = some (.known (anthropicWireBlock item)) := by
  cases item with
  | text text =>
    simp [anthropicBlock, readContentBlock, readKnownContentBlock, tagged, required,
      lookup_cons_ite, variant, anthropicBlockKinds, anthropicWireBlock]
  | imageUrl url detail =>
    simp [anthropicBlock, readContentBlock, readKnownContentBlock, tagged, required,
      lookup_cons_ite, variant, anthropicBlockKinds, anthropicWireBlock, readAnthropicSource,
      readBase64Source, readUrlSource, Read.unit]
  | toolResult callId output =>
    simp [anthropicBlock, readContentBlock, readKnownContentBlock, tagged, required, maybe,
      lookup_cons_ite, variant, anthropicBlockKinds, anthropicWireBlock, option_value_norm]

theorem readAnthropicToolWire_anthropicTool :
    readAnthropicToolWire (anthropicTool tool).norm = some (.client (anthropicWireTool tool)) := by
  simp [anthropicTool, readAnthropicToolWire, readAnthropicTool, required, maybe, lookup_cons_ite,
    value, option_str_orNull, tool.inputSchema.norm_tree_toValue, anthropicWireTool]

theorem readAnthropicRequest_anthropicDocument :
    readAnthropicRequest (anthropicDocument request .text).norm = some (anthropicWire request) := by
  have hblocks := list_norm (fun item => AnthropicContentBlock.known (anthropicWireBlock item))
    request.input fun item _ => readContentBlock_anthropicBlock item
  have htools := list_norm (fun tool => AnthropicToolWire.client (anthropicWireTool tool))
    request.tools fun tool _ => readAnthropicToolWire_anthropicTool tool
  have hmax := option_u64_ofNat (anthropicMaxTokens_lt request)
  have hbudget := option_u64_ofNat (anthropicThinkingBudget_lt request)
  simp only [Json.norm_arr, List.map_map] at hblocks htools
  by_cases ht : request.tools = [] <;> cases hr : request.reasoning.isSome <;>
    simp [anthropicDocument, toolsMember_of_ne_nil, readAnthropicRequest, required, maybe,
      withDefault, lookup_cons_ite, hr, ht, list_singleton, readAnthropicMessage, Read.unit,
      readAnthropicContent, hblocks, htools, hmax, hbudget, anthropicWire,
      readAnthropicThinkingConfig]

end Wokcore.Protocols.Upstream
