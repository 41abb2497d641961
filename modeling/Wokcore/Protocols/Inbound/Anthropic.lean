import Wokcore.Protocols.Inbound.Common
import Wokcore.Lib.Word

/-!
# Decoding Anthropic Messages requests (`inbound/anthropic.rs`)

A request is read into its wire type, checked as a whole (`validateRequest`) and then taken apart:
texts, images and tool results become input items, the other known blocks a side table, and the
whole request is kept as a value under `anthropic.request`. A block, a source, a tool or a tool
choice that no known type reads is kept as an unknown value until the check refuses it.
-/

set_option autoImplicit false

namespace Wokcore.Protocols.Inbound

open Lib Wokcore.Core

/-- `AnthropicInboundLimits`. -/
structure AnthropicInboundLimits where
  maxRequestBytes : Nat
  maxMessages : Nat
  maxContentBlocks : Nat
  maxTools : Nat
  maxIdentifierBytes : Nat
  maxOpaquePayloadBytes : Nat
  maxRetainedValueBytes : Nat

def AnthropicInboundLimits.default : AnthropicInboundLimits where
  maxRequestBytes := 16 * 1024 * 1024
  maxMessages := 4096
  maxContentBlocks := 16384
  maxTools := 4096
  maxIdentifierBytes := 512
  maxOpaquePayloadBytes := 16 * 1024 * 1024
  maxRetainedValueBytes := 16 * 1024 * 1024

/-! ## Wire types -/

inductive AnthropicRole where
  | user
  | assistant
deriving DecidableEq, Repr

inductive ContentContext where
  | system
  | user
  | assistant
deriving DecidableEq, Repr

inductive AnthropicSource where
  | base64 (mediaType data : String) (extra : Extensions)
  | url (url : String) (extra : Extensions)
  | unknown (value : Value)

inductive AnthropicKnownContentBlock where
  | text (text : String) (extra : Extensions)
  | image (source : AnthropicSource) (extra : Extensions)
  | document (source : AnthropicSource) (extra : Extensions)
  | toolUse (id name : String) (input : Value) (extra : Extensions)
  | toolResult (toolUseId : String) (content : Option Value) (isError : Option Bool)
    (extra : Extensions)
  | thinking (thinking : String) (signature : Option String) (extra : Extensions)
  | redactedThinking (data : String) (extra : Extensions)

inductive AnthropicContentBlock where
  | known (block : AnthropicKnownContentBlock)
  | unknown (value : Value)

inductive AnthropicContent where
  | text (text : String)
  | blocks (blocks : List AnthropicContentBlock)

structure AnthropicMessage where
  role : AnthropicRole
  content : AnthropicContent
  extra : Extensions

structure AnthropicTool where
  name : String
  description : Option String
  inputSchema : Value
  extra : Extensions

inductive AnthropicToolWire where
  | client (tool : AnthropicTool)
  | unsupported (value : Value)

inductive AnthropicToolChoice where
  | auto (disableParallelToolUse : Option Bool) (extra : Extensions)
  | any (disableParallelToolUse : Option Bool) (extra : Extensions)
  | tool (name : String) (disableParallelToolUse : Option Bool) (extra : Extensions)
  | none (extra : Extensions)

inductive AnthropicToolChoiceWire where
  | known (choice : AnthropicToolChoice)
  | unknown (value : Value)

structure AnthropicThinkingConfig where
  kind : String
  budgetTokens : Option Nat
  extra : Extensions

structure AnthropicRequest where
  model : String
  messages : List AnthropicMessage
  maxTokens : Option Nat
  system : Option AnthropicContent
  tools : List AnthropicToolWire
  toolChoice : Option AnthropicToolChoiceWire
  stream : Bool
  thinking : Option AnthropicThinkingConfig
  extra : Extensions

/-! ## Reading the wire types -/

section Readers

open Read

variable (j : Json)

def readBase64Source : Option AnthropicSource := do
  let fs ← j.asObject
  let _ ← required "type" (unit [("base64", ())]) fs
  return .base64 (← required "media_type" str fs) (← required "data" str fs)
    (rest ["type", "media_type", "data"] fs)

def readUrlSource : Option AnthropicSource := do
  let fs ← j.asObject
  let _ ← required "type" (unit [("url", ())]) fs
  return .url (← required "url" str fs) (rest ["type", "url"] fs)

def readAnthropicSource : Option AnthropicSource :=
  readBase64Source j <|> readUrlSource j <|> some (.unknown j.toValue)

inductive AnthropicBlockKind where
  | text
  | image
  | document
  | toolUse
  | toolResult
  | thinking
  | redactedThinking

def anthropicBlockKinds : List (String × AnthropicBlockKind) :=
  [("text", .text), ("image", .image), ("document", .document), ("tool_use", .toolUse),
    ("tool_result", .toolResult), ("thinking", .thinking), ("redacted_thinking", .redactedThinking)]

def readKnownContentBlock : Option AnthropicKnownContentBlock := do
  let fs ← j.asObject
  let (kind, fs) ← tagged true "type" anthropicBlockKinds fs
  match kind with
  | .text => return .text (← required "text" str fs) (rest ["text"] fs)
  | .image => return .image (← required "source" readAnthropicSource fs) (rest ["source"] fs)
  | .document => return .document (← required "source" readAnthropicSource fs) (rest ["source"] fs)
  | .toolUse =>
    return .toolUse (← required "id" str fs) (← required "name" str fs)
      (← required "input" value fs) (rest ["id", "name", "input"] fs)
  | .toolResult =>
    return .toolResult (← required "tool_use_id" str fs) (← maybe "content" value fs)
      (← maybe "is_error" bool fs) (rest ["tool_use_id", "content", "is_error"] fs)
  | .thinking =>
    return .thinking (← required "thinking" str fs) (← maybe "signature" str fs)
      (rest ["thinking", "signature"] fs)
  | .redactedThinking => return .redactedThinking (← required "data" str fs) (rest ["data"] fs)

def readContentBlock : Option AnthropicContentBlock :=
  (readKnownContentBlock j).map .known <|> some (.unknown j.toValue)

def readAnthropicContent : Json → Option AnthropicContent
  | .str s => some (.text s)
  | j => (list readContentBlock j).map .blocks

def readAnthropicMessage : Option AnthropicMessage := do
  let fs ← j.asObject
  return {
    role := ← required "role" (unit [("user", .user), ("assistant", .assistant)]) fs
    content := ← required "content" readAnthropicContent fs
    extra := rest ["role", "content"] fs }

def readAnthropicTool : Option AnthropicTool := do
  let fs ← j.asObject
  return {
    name := ← required "name" str fs
    description := ← maybe "description" str fs
    inputSchema := ← required "input_schema" value fs
    extra := rest ["name", "description", "input_schema"] fs }

def readAnthropicToolWire : Option AnthropicToolWire :=
  (readAnthropicTool j).map .client <|> some (.unsupported j.toValue)

inductive AnthropicToolChoiceKind where
  | auto
  | any
  | tool
  | none

def readAnthropicToolChoice : Option AnthropicToolChoice := do
  let fs ← j.asObject
  let (kind, fs) ← tagged true "type"
    [("auto", AnthropicToolChoiceKind.auto), ("any", .any), ("tool", .tool), ("none", .none)] fs
  match kind with
  | .auto =>
    return .auto (← maybe "disable_parallel_tool_use" bool fs)
      (rest ["disable_parallel_tool_use"] fs)
  | .any =>
    return .any (← maybe "disable_parallel_tool_use" bool fs)
      (rest ["disable_parallel_tool_use"] fs)
  | .tool =>
    return .tool (← required "name" str fs) (← maybe "disable_parallel_tool_use" bool fs)
      (rest ["name", "disable_parallel_tool_use"] fs)
  | .none => return .none (rest [] fs)

def readAnthropicToolChoiceWire : Option AnthropicToolChoiceWire :=
  (readAnthropicToolChoice j).map .known <|> some (.unknown j.toValue)

def readAnthropicThinkingConfig : Option AnthropicThinkingConfig := do
  let fs ← j.asObject
  return {
    kind := ← required "type" str fs
    budgetTokens := ← maybe "budget_tokens" u64 fs
    extra := rest ["type", "budget_tokens"] fs }

def readAnthropicRequest : Option AnthropicRequest := do
  let fs ← j.asObject
  return {
    model := ← required "model" str fs
    messages := ← required "messages" (list readAnthropicMessage) fs
    maxTokens := ← maybe "max_tokens" u64 fs
    system := ← maybe "system" readAnthropicContent fs
    tools := ← withDefault "tools" (list readAnthropicToolWire) [] fs
    toolChoice := ← maybe "tool_choice" readAnthropicToolChoiceWire fs
    stream := ← withDefault "stream" bool false fs
    thinking := ← maybe "thinking" readAnthropicThinkingConfig fs
    extra := rest ["model", "messages", "max_tokens", "system", "tools", "tool_choice", "stream",
      "thinking"] fs }

end Readers

/-! ## Serializing sources and blocks -/

/-- Members of a map under `extra`, as `serde(flatten)` writes them after the fields. -/
def flattened (extra : Extensions) : Members := extra.entries.map fun e => (e.1, e.2.tree)

def optionalMember (key : String) : Option Json → Members
  | some j => [(key, j)]
  | none => []

/-- `serde_json::to_value(source)`. -/
def AnthropicSource.toJson : AnthropicSource → Json
  | .base64 mediaType data extra =>
    .obj ([("type", .str "base64"), ("media_type", .str mediaType), ("data", .str data)] ++
      flattened extra)
  | .url link extra => .obj ([("type", .str "url"), ("url", .str link)] ++ flattened extra)
  | .unknown value => value.tree

/-- `serde_json::to_value(known)`. -/
def AnthropicKnownContentBlock.toJson : AnthropicKnownContentBlock → Json
  | .text words extra => .obj ([("type", .str "text"), ("text", .str words)] ++ flattened extra)
  | .image source extra =>
    .obj ([("type", .str "image"), ("source", source.toJson)] ++ flattened extra)
  | .document source extra =>
    .obj ([("type", .str "document"), ("source", source.toJson)] ++ flattened extra)
  | .toolUse id name input extra =>
    .obj ([("type", .str "tool_use"), ("id", .str id), ("name", .str name), ("input", input.tree)]
      ++ flattened extra)
  | .toolResult toolUseId content isError extra =>
    .obj ([("type", .str "tool_result"), ("tool_use_id", .str toolUseId)]
      ++ optionalMember "content" (content.map Value.tree) ++ optionalMember "is_error"
      (isError.map .bool) ++ flattened extra)
  | .thinking words signature extra =>
    .obj ([("type", .str "thinking"), ("thinking", .str words)]
      ++ optionalMember "signature" (signature.map .str) ++ flattened extra)
  | .redactedThinking data extra =>
    .obj ([("type", .str "redacted_thinking"), ("data", .str data)] ++ flattened extra)

/-! ## Limits -/

namespace AnthropicInboundLimits

def validateIdentifier (limits : AnthropicInboundLimits) (value : String) : Result Unit :=
  requireThat (!(value.isEmpty || value.utf8ByteSize > limits.maxIdentifierBytes))

def validateValue (limits : AnthropicInboundLimits) (value : Value) : Result Unit :=
  requireThat (value.tree.toVec.length ≤ limits.maxRetainedValueBytes)

def validateOpaquePayload (limits : AnthropicInboundLimits) (value : String) : Result Unit :=
  requireThat (!(value.isEmpty || value.utf8ByteSize > limits.maxOpaquePayloadBytes))

end AnthropicInboundLimits

/-! ## Unknown values -/

/-- `raw_type`. -/
def rawType (value : Value) : Option String := (value.tree.get? "type").bind Json.asStr

/-- The three classifiers: a value of a known type, or of none, is invalid; another type is one the
    gateway does not support. -/
def classifyUnknown (known : List String) (value : Value) : GatewayError :=
  match rawType value with
  | none => .invalidRequest
  | some kind => if known.contains kind then .invalidRequest else .unsupportedCapability

/-- `classify_unknown_block`. -/
def classifyUnknownBlock : Value → GatewayError :=
  classifyUnknown ["text", "image", "document", "tool_use", "tool_result", "thinking",
    "redacted_thinking"]

/-- `classify_unknown_source`. -/
def classifyUnknownSource : Value → GatewayError := classifyUnknown ["base64", "url"]

/-- `classify_unknown_tool`. -/
def classifyUnknownTool : Value → GatewayError := classifyUnknown []

/-! ## Validation -/

variable (P : Parsers) (limits : AnthropicInboundLimits)

def isAllowedMediaType (mediaType : String) (document : Bool) : Bool :=
  if document then ["application/pdf", "text/plain"].contains (asciiLower mediaType.toList)
  else isImageMime mediaType.toList

/-- The match of `validate_source`. -/
def validateSourceKind (document : Bool) : AnthropicSource → Result Unit
  | .base64 mediaType data _ =>
    requireThat (isAllowedMediaType mediaType document && !data.isEmpty
      && (decodeBase64 data.toList).isSome)
  | .url url _ => do
    let parsed ← orInvalid (P.url.parse url)
    requireThat (parsed.scheme == "http" || parsed.scheme == "https")
  | .unknown value => .error (classifyUnknownSource value)

/-- `validate_source`. -/
def validateSource (source : AnthropicSource) (document : Bool) : Result Unit := do
  validateSourceKind P document source
  limits.validateValue source.toJson.toValue

/-- A check of an optional field. -/
def validateOptional {α : Type} (validate : α → Result Unit) : Option α → Result Unit
  | some a => validate a
  | none => .ok ()

/-- The arms of the loop of `validate_content`: each block has the roles it may stand under. -/
def validateBlock (context : ContentContext) : AnthropicContentBlock → Result Unit
  | .known (.text _ _) => .ok ()
  | .known (.image source _) =>
    if context = .user then validateSource P limits source false else .error .invalidRequest
  | .known (.document source _) =>
    if context = .user then validateSource P limits source true else .error .invalidRequest
  | .known (.toolUse id name input _) =>
    if context = .assistant then do
      limits.validateIdentifier id
      limits.validateIdentifier name
      requireThat input.tree.isObject
      limits.validateValue input
    else .error .invalidRequest
  | .known (.toolResult toolUseId content _ _) =>
    if context = .user then do
      limits.validateIdentifier toolUseId
      validateOptional limits.validateValue content
    else .error .invalidRequest
  | .known (.thinking _ signature _) =>
    if context = .assistant then validateOptional limits.validateOpaquePayload signature
    else .error .invalidRequest
  | .known (.redactedThinking data _) =>
    if context = .assistant then limits.validateOpaquePayload data else .error .invalidRequest
  | .unknown value => .error (classifyUnknownBlock value)

/-- `validate_content`: the number of blocks. -/
def validateContent (content : AnthropicContent) (context : ContentContext) : Result Nat :=
  match content with
  | .text _ => .ok 1
  | .blocks blocks => do
    requireThat (!blocks.isEmpty)
    blocks.forM (validateBlock P limits context)
    return blocks.length

def AnthropicRole.context : AnthropicRole → ContentContext
  | .user => .user
  | .assistant => .assistant

/-- The loop of `validate_request` over the messages, which adds up the blocks. -/
def countBlocks : Nat → List AnthropicMessage → Result Nat
  | count, [] => .ok count
  | count, message :: messages => do
    let blocks ← validateContent P limits message.content message.role.context
    countBlocks (satAdd u64Max count blocks) messages

def validateTool : AnthropicToolWire → Result Unit
  | .client tool => do
    limits.validateIdentifier tool.name
    requireThat tool.inputSchema.tree.isObject
    limits.validateValue tool.inputSchema
  | .unsupported value => .error (classifyUnknownTool value)

/-- `validate_tool_choice`. -/
def validateToolChoice : AnthropicToolChoiceWire → Result Unit
  | .known (.tool name _ extra) => do
    limits.validateIdentifier name
    requireThat (!extra.contains "name")
  | .known (.auto _ extra) => requireThat (!extra.contains "name")
  | .known (.any _ extra) => requireThat (!extra.contains "name")
  | .known (.none extra) =>
    requireThat (!(extra.contains "name" || extra.contains "disable_parallel_tool_use"))
  | .unknown value => .error (classifyUnknown ["auto", "any", "tool", "none"] value)

/-- The thinking arm of `validate_request`. -/
def validateThinking (thinking : AnthropicThinkingConfig) (maxTokens : Option Nat)
    (requireMaxTokens : Bool) : Result Unit :=
  if thinking.kind = "enabled" then
    match thinking.budgetTokens with
    | none => .error .invalidRequest
    | some budget =>
      requireThat (!(budget < 1024 || requireMaxTokens && maxTokens.any (budget ≥ ·)))
  else if thinking.kind = "adaptive" ∨ thinking.kind = "disabled" then
    requireThat thinking.budgetTokens.isNone
  else .error .unsupportedCapability

/-- The system prompt and the messages: how many blocks they have. -/
def validateBlocks (wire : AnthropicRequest) : Result Nat :=
  match wire.system with
  | some system => do
    let blocks ← validateContent P limits system .system
    countBlocks P limits blocks wire.messages
  | none => countBlocks P limits 0 wire.messages

/-- `validate_request`. -/
def validateRequest (wire : AnthropicRequest) (requireMaxTokens : Bool) : Result Unit := do
  limits.validateIdentifier wire.model
  requireThat (!(wire.messages.isEmpty || wire.messages.length > limits.maxMessages
    || requireMaxTokens && wire.maxTokens.all (· == 0)
    || !requireMaxTokens && wire.maxTokens.isSome
    || !requireMaxTokens && wire.stream))
  let blockCount ← validateBlocks P limits wire
  requireThat (!(blockCount > limits.maxContentBlocks || wire.tools.length > limits.maxTools))
  wire.tools.forM (validateTool limits)
  validateOptional (validateToolChoice limits) wire.toolChoice
  validateOptional (validateThinking · wire.maxTokens requireMaxTokens) wire.thinking

/-! ## Extraction -/

/-- `source_url`. -/
def sourceUrl : AnthropicSource → Result Url
  | .base64 mediaType data _ => orInvalid (P.url.parse ("data:" ++ mediaType ++ ";base64," ++ data))
  | .url url _ => orInvalid (P.url.parse url)
  | .unknown _ => .error .unsupportedCapability

/-- The record of a block that is no input item. -/
def knownBlockValue (messageIndex blockIndex : Nat) (role : AnthropicRole)
    (block : AnthropicKnownContentBlock) : Value :=
  (Json.obj [
    ("message_index", .ofNat messageIndex),
    ("block_index", .ofNat blockIndex),
    ("role", .str (match role with | .user => "user" | .assistant => "assistant")),
    ("block", block.toJson)]).toValue

/-- Where a content stands: the index and the role of its message, or `none` for the system
    prompt. -/
abbrev ContentPlace := Option (Nat × AnthropicRole)

def placedBlock (place : ContentPlace) (blockIndex : Nat) (block : AnthropicKnownContentBlock) :
    Items :=
  match place with
  | some (messageIndex, role) => .ok ([], [knownBlockValue messageIndex blockIndex role block])
  | none => .error .invalidRequest

/-- The arms of the loop of `extract_content`: the input items and the records a block adds. -/
def extractBlock (place : ContentPlace) (blockIndex : Nat) : AnthropicContentBlock → Items
  | .known (.text text _) => .ok ([.text text], [])
  | .known (.image source _) => do return ([.imageUrl (← sourceUrl P source) none], [])
  | .known (.toolResult toolUseId content _ _) =>
    .ok ([.toolResult toolUseId (content.getD (.ofStr ""))], [])
  | .known block => placedBlock place blockIndex block
  | .unknown _ => .error .unsupportedCapability

/-- The loop of `extract_content`. -/
def extractBlocks (place : ContentPlace) : Nat → List AnthropicContentBlock → Items
  | _, [] => .ok ([], [])
  | index, block :: blocks => do
    let (items, records) ← extractBlock P place index block
    let (moreItems, moreRecords) ← extractBlocks place (index + 1) blocks
    return (items ++ moreItems, records ++ moreRecords)

def extractParts (place : ContentPlace) : AnthropicContent → Items
  | .text text => .ok ([.text text], [])
  | .blocks blocks => extractBlocks P place 0 blocks

/-- `extract_content`, on the input items and the records so far. -/
def extractContent (content : AnthropicContent)
    (place : ContentPlace) (input : List InputItem) (knownBlocks : List Value) : Items := do
  let (items, records) ← extractParts P place content
  requireThat (!((input ++ items).length > limits.maxContentBlocks))
  return (input ++ items, knownBlocks ++ records)

/-- The loop over the messages. -/
def extractMessages : Nat → List AnthropicMessage → List InputItem → List Value → Items
  | _, [], input, knownBlocks => .ok (input, knownBlocks)
  | index, message :: messages, input, knownBlocks => do
    let (input, knownBlocks) ←
      extractContent P limits message.content (some (index, message.role)) input knownBlocks
    extractMessages (index + 1) messages input knownBlocks

/-- The system prompt, then the messages. -/
def extractRequest (wire : AnthropicRequest) : Items :=
  match wire.system with
  | some system => do
    let (input, knownBlocks) ← extractContent P limits system none [] []
    extractMessages P limits 0 wire.messages input knownBlocks
  | none => extractMessages P limits 0 wire.messages [] []

def clientTool : AnthropicToolWire → Option ToolDefinition
  | .client tool => some {
      name := tool.name
      description := tool.description
      inputSchema := tool.inputSchema
      extensions := tool.extra }
  | .unsupported _ => none

def anthropicReasoning (thinking : AnthropicThinkingConfig) : ReasoningOptions where
  effort := some thinking.kind
  extensions := match thinking.budgetTokens with
    | some budget => EntryMap.empty.insert "budget_tokens" (.ofNat budget)
    | none => .empty

/-- The extensions: the whole request, and the side table if it has records. -/
def anthropicExtensions (limits : AnthropicInboundLimits) (retained : Value)
    (knownBlocks : List Value) :
    Result Extensions :=
  let extensions := EntryMap.empty.insert "anthropic.request" retained
  if knownBlocks.isEmpty then .ok extensions
  else do
    limits.validateValue (.array knownBlocks)
    return extensions.insert "anthropic.known_blocks" (.array knownBlocks)

/-- `decode_message_with_limits` after the wire type is read from `document`. -/
def decodeAnthropicWire (requireMaxTokens : Bool)
    (requestId : String) (document : Json) (wire : AnthropicRequest) : Result CanonicalRequest := do
  validateRequest P limits wire requireMaxTokens
  limits.validateValue document.toValue
  let (input, knownBlocks) ← extractRequest P limits wire
  let extensions ← anthropicExtensions limits document.toValue knownBlocks
  return {
    requestId
    model := wire.model
    threadKey := none
    input
    tools := wire.tools.filterMap clientTool
    stream := wire.stream
    reasoning := wire.thinking.map anthropicReasoning
    extensions }

/-- `AnthropicCodec::decode_message_with_limits`. -/
def decodeMessageWithLimits (requestId : String) (json : Bytes)
    (limits : AnthropicInboundLimits) (requireMaxTokens : Bool) : Result CanonicalRequest := do
  requireThat (!(json.length > limits.maxRequestBytes))
  let document ← readBody P json
  let wire ← orInvalid (readAnthropicRequest document)
  decodeAnthropicWire P limits requireMaxTokens requestId document wire

/-- `AnthropicCodec::decode_message`. -/
def decodeAnthropicMessage (requestId : String) (json : Bytes) : Result CanonicalRequest :=
  decodeMessageWithLimits P requestId json .default true

end Wokcore.Protocols.Inbound
