import Wokcore.Protocols.Outbound.Common

/-!
# The OpenAI Chat codec (`outbound/openai_chat.rs`)

`ChatCodec` streams a response as chunks. `ChatResponseAggregator` is a second machine over the same
events that builds the response of a request without a stream.
-/

set_option autoImplicit false

namespace Wokcore.Protocols.Outbound

open Lib Protocols.Stream Call

/-! ## Context and limits -/

inductive ChatFinishReason where
  | stop
  | length
  | toolCalls
  | contentFilter
  | functionCall
deriving DecidableEq

/-- `ChatFinishReason::as_str`. -/
def ChatFinishReason.asStr : ChatFinishReason → String
  | .stop => "stop"
  | .length => "length"
  | .toolCalls => "tool_calls"
  | .contentFilter => "content_filter"
  | .functionCall => "function_call"

structure ChatResponseTemplate where
  choiceIndex : UInt64
  finishReason : ChatFinishReason
  logprobs : Option Value
  includeUsage : Bool
  extra : Extensions

structure ChatEncodeContext where
  model : String
  created : UInt64
  response : ChatResponseTemplate

structure ChatLimits where
  maxOutputItems : Nat
  maxIdentifierBytes : Nat
  maxAggregateBytes : Nat
  maxValueBytes : Nat

def ChatLimits.default : ChatLimits where
  maxOutputItems := 4096
  maxIdentifierBytes := 512
  maxAggregateBytes := 16 * 1024 * 1024
  maxValueBytes := 1024 * 1024

/-! ## Usage -/

/-- `usage_details`. -/
def chatUsageDetails (usage : Usage) (extensionKey canonicalKey : String)
    (canonicalValue : UInt64) : Json :=
  let details := ((usage.extensions.get? extensionKey).bind fun v => v.tree.asObject).getD []
  .obj (insertKey canonicalKey (.ofWord canonicalValue) details)

/-- The members of a usage that are not extensions. -/
def chatUsageFields (usage : Usage) : Members :=
  [("prompt_tokens", .ofWord usage.inputTokens),
   ("completion_tokens", .ofWord usage.outputTokens),
   ("total_tokens", .ofWord (satWord usage.inputTokens usage.outputTokens)),
   ("prompt_tokens_details",
     chatUsageDetails usage "prompt_tokens_details" "cached_tokens"
   (usage.cachedInputTokens.getD 0)), ("completion_tokens_details",
     chatUsageDetails usage "completion_tokens_details" "reasoning_tokens"
     (usage.reasoningTokens.getD 0))]

/-- `usage_value`. -/
def chatUsageValue (usage : Usage) : Value :=
    (Json.obj (orInsertAll (chatUsageFields usage) usage.extensions)).toValue

/-- `error_envelope`. -/
def chatErrorEnvelope (error : GatewayError) : Value :=
  (Json.obj [("error", .obj [("type", .str "gateway_error"), ("code", .str error.code),
    ("message", .str error.publicMessage)])]).toValue

namespace ChatLimits

/-- `ChatLimits::validate_identifier`. -/
def validateIdentifier (limits : ChatLimits) : String → Result Unit :=
    checkIdentifier limits.maxIdentifierBytes

/-- `ChatLimits::validate_string_map`. -/
def validateStringMap (limits : ChatLimits) : Extensions → Result Unit :=
  checkStringMap limits.maxOutputItems limits.maxIdentifierBytes limits.maxValueBytes

/-- `ChatLimits::validate_serialized`. -/
def validateSerialized (limits : ChatLimits) : Json → Result Unit :=
    checkSerialized limits.maxValueBytes

/-- `ChatLimits::validate_context`. -/
def validateContext (limits : ChatLimits) (context : ChatEncodeContext) : Result Unit := do
  limits.validateIdentifier context.model
  limits.validateStringMap context.response.extra
  limits.validateSerialized (optionJson Value.tree context.response.logprobs)

/-- `ChatLimits::validate_usage`. -/
def validateUsage (limits : ChatLimits) (usage : Usage) : Result Value := do
  limits.validateStringMap usage.extensions
  limits.validateSerialized (chatUsageValue usage).tree
  return chatUsageValue usage

end ChatLimits

/-! ## Output items -/

inductive OutputIdentity where
  | text
  | tool (index : Nat)
deriving DecidableEq

structure ChatToolIdentity where
  callId : String
  name : String
deriving DecidableEq

structure OutputRegistry where
  identities : EntryMap OutputIdentity
  tools : List ChatToolIdentity

namespace OutputRegistry

def empty : OutputRegistry := ⟨.empty, []⟩

/-- `OutputRegistry::register_text`. -/
def registerText (r : OutputRegistry) (itemId : String) (limits : ChatLimits) :
    Result OutputRegistry := do
  limits.validateIdentifier itemId
  match r.identities.get? itemId with
  | some .text => return r
  | some (.tool _) => .error .invalidRequest
  | none => do
    requireThat (!(r.identities.entries.length ≥ limits.maxOutputItems))
    return { r with identities := r.identities.insert itemId .text }

/-- `OutputRegistry::register_tool`: the index of the call, and whether it is new. A remembered
    index is always that of a tool, so the indexing of the source cannot fail. -/
def registerTool (r : OutputRegistry) (itemId callId name : String) (limits : ChatLimits) :
    Result (OutputRegistry × Nat × Bool) := do
  limits.validateIdentifier itemId
  limits.validateIdentifier callId
  limits.validateIdentifier name
  requireThat (validChatFunctionName name)
  match r.identities.get? itemId with
  | some .text => .error .invalidRequest
  | some (.tool index) =>
    if r.tools[index]? = some ⟨callId, name⟩ then return (r, index, false)
      else .error .invalidRequest
  | none => do
    requireThat (!(r.identities.entries.length ≥ limits.maxOutputItems
      || r.tools.length ≥ limits.maxOutputItems || r.tools.any fun tool => tool.callId == callId))
    return (⟨r.identities.insert itemId (.tool r.tools.length), r.tools ++ [⟨callId, name⟩]⟩,
      r.tools.length, true)

end OutputRegistry

/-! ## The streaming codec -/

structure ChatCodec where
  context : ChatEncodeContext
  limits : ChatLimits
  contextValidated : Bool
  terminal : Bool
  responseId : Option String
  outputs : OutputRegistry
  usage : Option Value

variable (context : ChatEncodeContext)

namespace ChatCodec

def withLimits (limits : ChatLimits) : ChatCodec where
  context := context
  limits := limits
  contextValidated := false
  terminal := false
  responseId := none
  outputs := .empty
  usage := none

def new : ChatCodec := withLimits context .default

/-- `Transition`, as the values it sends; `None` sends none and `Failed` one. -/
abbrev Transition := List Value

abbrev Sending := Call GatewayError ChatCodec Transition

variable (c : ChatCodec)

/-- `ChatCodec::choice`. -/
def choice (delta finishReason : Json) : Json :=
  .obj [("index", .ofWord c.context.response.choiceIndex), ("delta", delta),
    ("logprobs", optionJson Value.tree c.context.response.logprobs),
    ("finish_reason", finishReason)]

/-- The members a chunk has of its own. -/
def reservedKeys : List String := ["id", "object", "created", "model", "choices", "usage"]

/-- The members of `ChatChunkWire`. -/
def chunkFields (choices : List Json) (usage : Json) : Members :=
  [("id", .str (c.responseId.getD "")), ("object", .str "chat.completion.chunk"),
    ("created", .ofWord c.context.created), ("model", .str c.context.model),
    ("choices", .arr choices)]
  ++ (if c.context.response.includeUsage then [("usage", usage)] else [])
  ++ filteredExtra c.context.response.extra reservedKeys

/-- `ChatCodec::chunk`. -/
def chunk (choices : List Json) (usage : Json) : Value :=
  (Json.obj (c.chunkFields choices usage)).toValue

/-- `ChatCodec::require_created`. -/
def requireCreated : Result Unit := requireThat c.responseId.isSome

/-- `ChatCodec::require_delta_allowed`. -/
def requireDeltaAllowed : Result Unit := do
  c.requireCreated
  requireThat c.usage.isNone

/-- `ChatCodec::validate_context_once`. -/
def validateContextOnce : Call GatewayError ChatCodec Unit :=
  validateOnce contextValidated (fun c => c.limits.validateContext c.context)
    fun c => { c with contextValidated := true }

/-- `ChatCodec::created`. -/
def created (responseId : String) : Sending := do
  let c ← get
  lift (requireThat c.responseId.isNone)
  lift (c.limits.validateIdentifier responseId)
  let c := { c with responseId := some responseId }
  set c
  return [c.chunk [c.choice (.obj [("role", .str "assistant")]) .null] .null]

/-- `ChatCodec::text_delta`. -/
def textDelta (itemId delta : String) : Sending := do
  let c ← get
  lift c.requireDeltaAllowed
  let outputs ← lift (c.outputs.registerText itemId c.limits)
  set { c with outputs }
  return [c.chunk [c.choice (.obj [("content", .str delta)]) .null] .null]

/-- The entry of `tool_calls`: a new call is sent with its identity. -/
def toolCallDelta (index : Nat) (isNew : Bool) (callId name delta : String) : Json :=
  if isNew then
    .obj [("index", .ofNat index), ("id", .str callId), ("type", .str "function"),
      ("function", .obj [("name", .str name), ("arguments", .str delta)])]
  else
    .obj [("index", .ofNat index), ("function", .obj [("arguments", .str delta)])]

/-- `ChatCodec::tool_delta`. -/
def toolDelta (itemId callId name delta : String) : Sending := do
  let c ← get
  lift c.requireDeltaAllowed
  let (outputs, toolIndex, isNew) ← lift (c.outputs.registerTool itemId callId name c.limits)
  set { c with outputs }
  let entry := toolCallDelta toolIndex isNew callId name delta
  return [c.chunk [c.choice (.obj [("tool_calls", .arr [entry])]) .null] .null]

/-- `ChatCodec::usage`. -/
def takeUsage (usage : Usage) : Sending := do
  let c ← get
  lift c.requireCreated
  lift (requireThat c.usage.isNone)
  let value ← lift (c.limits.validateUsage usage)
  set { c with usage := some value }
  return []

/-- `ChatCodec::completed`. -/
def completed : Sending := do
  let c ← get
  lift c.requireCreated
  let usage ← lift (orInvalid c.usage)
  let last := c.chunk [c.choice (.obj []) (.str c.context.response.finishReason.asStr)] .null
  set { c with terminal := true }
  return last :: (if c.context.response.includeUsage then [c.chunk [] usage.tree] else [])

/-- `ChatCodec::failed`. -/
def failed (error : GatewayError) : Sending := do
  let c ← get
  set { c with terminal := true }
  return [chatErrorEnvelope error]

/-- The arms of `ChatCodec::transition`. -/
def handle : CanonicalEvent → Sending
  | .created responseId => created responseId
  | .outputTextDelta itemId delta => textDelta itemId delta
  | .reasoningDelta _ _ => throw .unsupportedCapability
  | .toolCallDelta itemId callId name delta => toolDelta itemId callId name delta
  | .usage usage => takeUsage usage
  | .completed => completed
  | .failed error => failed error

/-- `ChatCodec::transition`. -/
def transition (event : CanonicalEvent) : Sending := do
  let c ← get
  lift (requireThat (!c.terminal))
  validateContextOnce
  handle event

/-- `data: [DONE]` and a blank line. -/
def doneMarker : Bytes := frameText none "[DONE]".toList

/-- `ChatCodec::encode_chunk`. -/
def encodeChunk (event : CanonicalEvent) : Call GatewayError ChatCodec Bytes := do
  let chunks ← transition event
  let encoded := chunks.flatMap fun value => encodeSse none value
  let c ← get
  return if c.terminal then encoded ++ doneMarker else encoded

end ChatCodec

/-! ## The aggregator -/

structure ChatResponseAggregator where
  context : ChatEncodeContext
  limits : ChatLimits
  contextValidated : Bool
  terminal : Bool
  failed : Option Value
  responseId : Option String
  outputs : OutputRegistry
  text : String
  arguments : List String
  aggregateBytes : Nat
  usage : Option Value

namespace ChatResponseAggregator

def withLimits (limits : ChatLimits) : ChatResponseAggregator where
  context := context
  limits := limits
  contextValidated := false
  terminal := false
  failed := none
  responseId := none
  outputs := .empty
  text := ""
  arguments := []
  aggregateBytes := 0
  usage := none

abbrev Aggregated := Result ChatResponseAggregator

variable (a : ChatResponseAggregator)

/-- `ChatResponseAggregator::require_created`. -/
def requireCreated : Result Unit := requireThat a.responseId.isSome

/-- `ChatResponseAggregator::require_delta_allowed`. -/
def requireDeltaAllowed : Result Unit := do
  a.requireCreated
  requireThat a.usage.isNone

/-- `ChatResponseAggregator::validate_context_once`. -/
def validateContextOnce : Aggregated :=
  if a.contextValidated then .ok a
  else do
    a.limits.validateContext a.context
    return { a with contextValidated := true }

/-- `ChatResponseAggregator::ensure_payload_capacity`. -/
def ensurePayloadCapacity (additional : Nat) : Result Unit :=
  requireThat ((checkedAdd u64Max a.aggregateBytes additional).any fun total =>
    total ≤ a.limits.maxAggregateBytes)

/-- `ChatResponseAggregator::created`. -/
def created (responseId : String) : Aggregated := do
  requireThat a.responseId.isNone
  a.limits.validateIdentifier responseId
  return { a with responseId := some responseId }

/-- `ChatResponseAggregator::text_delta`. -/
def textDelta (itemId delta : String) : Aggregated := do
  a.requireDeltaAllowed
  a.ensurePayloadCapacity delta.utf8ByteSize
  let outputs ← a.outputs.registerText itemId a.limits
  return { a with
    outputs, text := a.text ++ delta, aggregateBytes := a.aggregateBytes + delta.utf8ByteSize }

/-- The argument texts with room for a new call, which is refused when there are too many. -/
def makeRoom (isNew : Bool) : Result (List String) :=
  if isNew then do
    requireThat (!(a.arguments.length ≥ a.limits.maxOutputItems))
    return a.arguments ++ [""]
  else .ok a.arguments

/-- `ChatResponseAggregator::tool_delta`. -/
def toolDelta (itemId callId name delta : String) : Aggregated := do
  a.requireDeltaAllowed
  a.ensurePayloadCapacity delta.utf8ByteSize
  let (outputs, toolIndex, isNew) ← a.outputs.registerTool itemId callId name a.limits
  let arguments ← a.makeRoom isNew
  return { a with
    outputs, arguments := arguments.modify toolIndex (· ++ delta)
    aggregateBytes := a.aggregateBytes + delta.utf8ByteSize }

/-- `ChatResponseAggregator::usage`. -/
def takeUsage (usage : Usage) : Aggregated := do
  a.requireCreated
  requireThat a.usage.isNone
  let value ← a.limits.validateUsage usage
  return { a with usage := some value }

/-- `ChatResponseAggregator::completed`. -/
def completed : Aggregated := do
  a.requireCreated
  requireThat a.usage.isSome
  return { a with terminal := true }

/-- The arms of `ChatResponseAggregator::transition`. -/
def handle : CanonicalEvent → Aggregated
  | .created responseId => a.created responseId
  | .outputTextDelta itemId delta => a.textDelta itemId delta
  | .reasoningDelta _ _ => .error .unsupportedCapability
  | .toolCallDelta itemId callId name delta => a.toolDelta itemId callId name delta
  | .usage usage => a.takeUsage usage
  | .completed => a.completed
  | .failed error => .ok { a with failed := some (chatErrorEnvelope error), terminal := true }

/-- `ChatResponseAggregator::transition`. -/
def transition (event : CanonicalEvent) : Aggregated := do
  requireThat (!a.terminal)
  let a ← a.validateContextOnce
  a.handle event

/-- One call of the message. -/
def toolCall (entry : ChatToolIdentity × String) : Json :=
  .obj [("id", .str entry.1.callId), ("type", .str "function"),
    ("function", .obj [("name", .str entry.1.name), ("arguments", .str entry.2)])]

/-- The message of `response_value`. -/
def message : Json :=
  .obj ([("role", .str "assistant"), ("content", if a.text.isEmpty then .null else .str a.text)]
    ++ if a.outputs.tools.isEmpty then []
      else [("tool_calls", .arr ((a.outputs.tools.zip a.arguments).map toolCall))])

/-- `ChatResponseAggregator::response_value`. -/
def responseValue (usage : Value) : Value :=
  let choice := Json.obj [("index", .ofWord a.context.response.choiceIndex), ("message", a.message),
    ("logprobs", optionJson Value.tree a.context.response.logprobs),
    ("finish_reason", .str a.context.response.finishReason.asStr)]
  (Json.obj ([("id", .str (a.responseId.getD "")), ("object", .str "chat.completion"),
    ("created", .ofWord a.context.created), ("model", .str a.context.model),
    ("choices", .arr [choice]), ("usage", usage.tree)] ++ filteredExtra a.context.response.extra
    ChatCodec.reservedKeys)).toValue

/-- `ChatResponseAggregator::encode`. -/
def encode (events : Events) : Result Value := do
  let a ← events.foldlM transition a
  requireThat a.terminal
  match a.failed with
  | some error => return error
  | none => do
    let usage ← orInvalid a.usage
    return a.responseValue usage

end ChatResponseAggregator

/-- `ChatCodec::encode_response`. -/
def ChatCodec.encodeResponse (events : Events) : Result Value :=
  (ChatResponseAggregator.withLimits context .default).encode events

end Wokcore.Protocols.Outbound
