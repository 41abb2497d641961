import Wokcore.Protocols.Outbound.Common

/-!
# The Anthropic codec (`outbound/anthropic.rs`)

`AnthropicCodec` streams a message as content blocks, of which at most one is open. A block is
closed when the next one is opened or when the usage comes; a thinking block is closed with the
signature the context has for it. A call that fails may have closed a block before it does.
`AnthropicResponseAggregator` builds the message of a request without a stream.
-/

set_option autoImplicit false

namespace Wokcore.Protocols.Outbound

open Lib Protocols.Stream Call

/-! ## Context and limits -/

inductive AnthropicStopReason where
  | endTurn
  | maxTokens
  | stopSequence
  | toolUse
  | pauseTurn
  | refusal
  | modelContextWindowExceeded
deriving DecidableEq

/-- `AnthropicStopReason::as_str`. -/
def AnthropicStopReason.asStr : AnthropicStopReason → String
  | .endTurn => "end_turn"
  | .maxTokens => "max_tokens"
  | .stopSequence => "stop_sequence"
  | .toolUse => "tool_use"
  | .pauseTurn => "pause_turn"
  | .refusal => "refusal"
  | .modelContextWindowExceeded => "model_context_window_exceeded"

structure AnthropicResponseTemplate where
  stopReason : AnthropicStopReason
  stopSequence : Option String
  thinkingSignatures : EntryMap String
  extra : Extensions

structure AnthropicEncodeContext where
  requestId : String
  model : String
  initialUsage : Usage
  response : AnthropicResponseTemplate

structure AnthropicLimits where
  maxOutputItems : Nat
  maxIdentifierBytes : Nat
  maxOpaquePayloadBytes : Nat
  maxValueBytes : Nat
  maxAggregateBytes : Nat

def AnthropicLimits.default : AnthropicLimits where
  maxOutputItems := 4096
  maxIdentifierBytes := 512
  maxOpaquePayloadBytes := 1024 * 1024
  maxValueBytes := 1024 * 1024
  maxAggregateBytes := 16 * 1024 * 1024

/-- The signature of a thinking item, which the context must have. -/
def AnthropicResponseTemplate.signatureOf (template : AnthropicResponseTemplate) (itemId : String) :
    Result String :=
  match template.thinkingSignatures.get? itemId with
  | some signature => .ok signature
  | none => .error .unsupportedCapability

/-! ## Usage -/

/-- `usage.extensions.get(key).and_then(Value::as_u64)`. -/
def extensionWord (usage : Usage) (key : String) : Option UInt64 :=
  (usage.extensions.get? key).bind fun v => v.tree.asWord

/-- The details of the output tokens, with the reasoning tokens among them. -/
def outputDetails (usage : Usage) (reasoningTokens : UInt64) : Json :=
  let details := ((usage.extensions.get? "output_tokens_details").bind fun v =>
    v.tree.asObject).getD []
  .obj (insertKey "thinking_tokens" (.ofWord reasoningTokens) details)

/-- The members of a usage that are not extensions. -/
def anthropicUsageFields (usage : Usage) : Members :=
  [("input_tokens", .ofWord usage.inputTokens),
   ("cache_creation_input_tokens",
   .ofWord ((extensionWord usage "cache_creation_input_tokens").getD 0)),
     ("cache_read_input_tokens",
   .ofWord (((extensionWord usage "cache_read_input_tokens").or usage.cachedInputTokens).getD 0)),
   ("output_tokens", .ofWord usage.outputTokens)]
  ++ (usage.reasoningTokens.map fun tokens =>
    ("output_tokens_details", outputDetails usage tokens)).toList

theorem nodup_anthropicUsageFields (usage : Usage) :
    ((anthropicUsageFields usage).map Prod.fst).Nodup := by
  cases hreasoning : usage.reasoningTokens <;> simp [anthropicUsageFields, hreasoning]

/-- `usage_value`. -/
def anthropicUsageValue (usage : Usage) : Value :=
  (Json.obj (orInsertAll (anthropicUsageFields usage) usage.extensions)).toValue

/-- `initial_usage_value`: `usage_value`, with the output tokens written once more. -/
def initialUsageValue (usage : Usage) : Value := anthropicUsageValue usage

/-- The members of the last usage that are not extensions. -/
def finalUsageFields (usage : Usage) : Members :=
  ("output_tokens", .ofWord usage.outputTokens)
  :: (usage.reasoningTokens.map fun tokens =>
    ("output_tokens_details", Json.obj [("thinking_tokens", .ofWord tokens)])).toList

theorem nodup_finalUsageFields (usage : Usage) : ((finalUsageFields usage).map Prod.fst).Nodup := by
  cases hreasoning : usage.reasoningTokens <;> simp [finalUsageFields, hreasoning]

/-- `key.starts_with("output_")`. -/
def isOutputKey (key : String) : Bool := "output_".toList.isPrefixOf key.toList

/-- `final_usage_value`: of the extensions only those about the output. -/
def finalUsageValue (usage : Usage) : Value :=
  (Json.obj (finalUsageFields usage ++ ((usage.extensions.entries.filter fun e => isOutputKey e.1
    && !((finalUsageFields usage).map Prod.fst).contains e.1).map fun e =>
    (e.1, e.2.tree)))).toValue

/-- `anthropic_error_type`. -/
def anthropicErrorType (error : GatewayError) : String :=
  match error.kind with
  | .invalidRequest | .unsupportedCapability => "invalid_request_error"
  | .upstreamAuth => "authentication_error"
  | .rateLimited _ => "rate_limit_error"
  | .upstreamUnavailable => "overloaded_error"
  | .modelNotFound => "not_found_error"
  | .upstreamError _ | .internalError | .noExecutor => "api_error"

namespace AnthropicLimits

variable (limits : AnthropicLimits)

/-- `AnthropicLimits::validate_identifier`. -/
def validateIdentifier : String → Result Unit :=
  checkIdentifier limits.maxIdentifierBytes

/-- `AnthropicLimits::validate_value`. -/
def validateValue : Json → Result Unit := checkSerialized limits.maxValueBytes

/-- `AnthropicLimits::validate_opaque_payload`. -/
def validateOpaquePayload : String → Result Unit :=
  checkIdentifier limits.maxOpaquePayloadBytes

/-- The checks of `validate_context_once` and of `AnthropicResponseAggregator::validate_context`. -/
def validateContext (context : AnthropicEncodeContext) : Result Unit := do
  limits.validateIdentifier context.model
  limits.validateIdentifier context.requestId
  context.response.stopSequence.forM limits.validateIdentifier
  limits.validateValue (initialUsageValue context.initialUsage).tree
  limits.validateValue (Value.object context.response.extra).tree
  requireThat (!(context.response.thinkingSignatures.entries.length > limits.maxOutputItems))
  context.response.thinkingSignatures.entries.forM fun e => do
    limits.validateIdentifier e.1
    limits.validateOpaquePayload e.2

end AnthropicLimits

/-! ## The streaming codec -/

inductive ActiveBlock where
  | text (itemId : String) (index : Nat)
  | reasoning (itemId : String) (index : Nat)
  | tool (itemId callId name : String) (index : Nat)
deriving DecidableEq

/-- `ActiveBlock::index`. -/
def ActiveBlock.index : ActiveBlock → Nat
  | .text _ index => index
  | .reasoning _ index => index
  | .tool _ _ _ index => index

structure AnthropicCodec where
  context : AnthropicEncodeContext
  limits : AnthropicLimits
  contextValidated : Bool
  terminal : Bool
  responseId : Option String
  active : Option ActiveBlock
  seenItems : List String
  callIds : List String
  nextIndex : Nat
  usage : Option Usage

namespace AnthropicCodec

abbrev WireEvent := String × Value

/-- A call that gives out what is to be sent. -/
abbrev Sending := Call GatewayError AnthropicCodec (List WireEvent)

/-- `wire`. -/
def wire (kind : String) (fields : Members) : WireEvent :=
    (kind, (Json.obj (("type", .str kind) :: fields)).toValue)

def withLimits (context : AnthropicEncodeContext) (limits : AnthropicLimits) : AnthropicCodec where
  context := context
  limits := limits
  contextValidated := false
  terminal := false
  responseId := none
  active := none
  seenItems := []
  callIds := []
  nextIndex := 0
  usage := none

def new (context : AnthropicEncodeContext) : AnthropicCodec := withLimits context .default

variable (c : AnthropicCodec)

/-- `AnthropicCodec::require_created`. -/
def requireCreated : Result Unit := requireThat c.responseId.isSome

/-- `AnthropicCodec::require_delta_allowed`. -/
def requireDeltaAllowed : Result Unit := do
  c.requireCreated
  requireThat c.usage.isNone

/-- `AnthropicCodec::validate_context_once`. -/
def validateContextOnce : Call GatewayError AnthropicCodec Unit :=
  validateOnce contextValidated (fun c => c.limits.validateContext c.context)
    fun c => { c with contextValidated := true }

/-! ### Blocks -/

/-- `AnthropicCodec::register_item`. -/
def registerItem (itemId : String) : Call GatewayError AnthropicCodec Nat := do
  let c ← get
  lift (c.limits.validateIdentifier itemId)
  lift (requireThat
    (!(c.seenItems.length ≥ c.limits.maxOutputItems || c.seenItems.contains itemId)))
  set { c with seenItems := itemId :: c.seenItems, nextIndex := c.nextIndex + 1 }
  return c.nextIndex

/-- What is sent to close a block. -/
def closingWires : ActiveBlock → Result (List WireEvent)
  | .reasoning itemId index => do
    let signature ← c.context.response.signatureOf itemId
    return [wire "content_block_delta" [("index", .ofNat index),
        ("delta", .obj [("type", .str "signature_delta"), ("signature", .str signature)])],
      wire "content_block_stop" [("index", .ofNat index)]]
  | block => .ok [wire "content_block_stop" [("index", .ofNat block.index)]]

/-- `AnthropicCodec::close_active`. The block is taken out first, so it is gone even if its
    signature is missing. -/
def closeActive : Sending := do
  let c ← get
  match c.active with
  | none => return []
  | some active => do
    set { c with active := none }
    lift (c.closingWires active)

/-- `self.active = Some(block)`, and the event that opens it. -/
def openBlock (block : ActiveBlock) (contentBlock : Json) :
    Call GatewayError AnthropicCodec WireEvent := do
  let c ← get
  set { c with active := some block }
  return wire "content_block_start" [("index", .ofNat block.index), ("content_block", contentBlock)]

/-- The item and index of an open text block. -/
def isActiveText (itemId : String) : Bool :=
  match c.active with
  | some (.text active _) => active == itemId
  | _ => false

/-- `AnthropicCodec::activate_text`. -/
def activateText (itemId : String) : Sending := do
  let c ← get
  if c.isActiveText itemId then return []
  let wires ← closeActive
  let index ← registerItem itemId
  let start ← openBlock (.text itemId index) (.obj [("type", .str "text"), ("text", .str "")])
  return wires ++ [start]

def isActiveReasoning (itemId : String) : Bool :=
  match c.active with
  | some (.reasoning active _) => active == itemId
  | _ => false

/-- `AnthropicCodec::activate_reasoning`. -/
def activateReasoning (itemId : String) : Sending := do
  let c ← get
  if c.isActiveReasoning itemId then return []
  let signature ← lift (c.context.response.signatureOf itemId)
  lift (c.limits.validateOpaquePayload signature)
  let wires ← closeActive
  let index ← registerItem itemId
  let start ← openBlock (.reasoning itemId index)
    (.obj [("type", .str "thinking"), ("thinking", .str ""), ("signature", .str "")])
  return wires ++ [start]

def isActiveTool (itemId callId name : String) : Bool :=
  match c.active with
  | some (.tool activeItem activeCall activeName _) =>
    activeItem == itemId && activeCall == callId && activeName == name
  | _ => false

/-- `AnthropicCodec::activate_tool`. -/
def activateTool (itemId callId name : String) : Sending := do
  let c ← get
  if c.isActiveTool itemId callId name then return []
  lift (c.limits.validateIdentifier callId)
  lift (c.limits.validateIdentifier name)
  let wires ← closeActive
  lift (requireThat (!c.callIds.contains callId))
  let index ← registerItem itemId
  let c ← get
  set { c with callIds := callId :: c.callIds }
  let start ← openBlock (.tool itemId callId name index)
    (.obj [("type", .str "tool_use"), ("id", .str callId), ("name", .str name), ("input", .obj [])])
  return wires ++ [start]

/-! ### Events -/

/-- `AnthropicCodec::created`. -/
def created (responseId : String) : Sending := do
  let c ← get
  lift (requireThat c.responseId.isNone)
  lift (c.limits.validateIdentifier responseId)
  set { c with responseId := some responseId }
  let message := Json.obj (orInsertAll
    [("id", .str responseId), ("type", .str "message"), ("role", .str "assistant"),
      ("content", .arr []), ("model", .str c.context.model), ("stop_reason", .null),
      ("stop_sequence", .null), ("usage", (initialUsageValue c.context.initialUsage).tree)]
      c.context.response.extra)
  return [wire "message_start" [("message", message)]]

/-- The event that carries a delta of the open block; `expect` of the source cannot fail, because a
    block has just been activated. -/
def deltaWire (delta : Json) : Call GatewayError AnthropicCodec WireEvent := do
  let c ← get
  let block ← lift (orInvalid c.active)
  return wire "content_block_delta" [("index", .ofNat block.index), ("delta", delta)]

/-- `AnthropicCodec::text_delta`. -/
def textDelta (itemId delta : String) : Sending := do
  let c ← get
  lift c.requireDeltaAllowed
  lift (c.limits.validateValue (.str delta))
  let wires ← activateText itemId
  let last ← deltaWire (.obj [("type", .str "text_delta"), ("text", .str delta)])
  return wires ++ [last]

/-- `AnthropicCodec::reasoning_delta`. -/
def reasoningDelta (itemId delta : String) : Sending := do
  let c ← get
  lift c.requireDeltaAllowed
  lift (c.limits.validateValue (.str delta))
  let wires ← activateReasoning itemId
  let last ← deltaWire (.obj [("type", .str "thinking_delta"), ("thinking", .str delta)])
  return wires ++ [last]

/-- `AnthropicCodec::tool_delta`. -/
def toolDelta (itemId callId name delta : String) : Sending := do
  let c ← get
  lift c.requireDeltaAllowed
  lift (c.limits.validateValue (.str delta))
  let wires ← activateTool itemId callId name
  let last ← deltaWire (.obj [("type", .str "input_json_delta"), ("partial_json", .str delta)])
  return wires ++ [last]

/-- `AnthropicCodec::usage`. -/
def takeUsage (usage : Usage) : Sending := do
  let c ← get
  lift c.requireCreated
  lift (requireThat c.usage.isNone)
  lift (c.limits.validateValue (anthropicUsageValue usage).tree)
  let wires ← closeActive
  let c ← get
  set { c with usage := some usage }
  return wires ++ [wire "message_delta"
    [("delta", .obj [("stop_reason", .str c.context.response.stopReason.asStr),
      ("stop_sequence", optionJson .str c.context.response.stopSequence)]),
     ("usage", (finalUsageValue usage).tree)]]

/-- `AnthropicCodec::completed`. -/
def completed : Sending := do
  let c ← get
  lift c.requireCreated
  lift (requireThat (!(c.usage.isNone || c.active.isSome)))
  set { c with terminal := true }
  return [wire "message_stop" []]

/-- `AnthropicCodec::failed`. -/
def failed (error : GatewayError) : Sending := do
  let c ← get
  set { c with terminal := true }
  return [wire "error" [("error", .obj [("type", .str (anthropicErrorType error)),
    ("message", .str error.publicMessage)])]]

/-- The arms of `AnthropicCodec::encode_event`. -/
def handle : CanonicalEvent → Sending
  | .created responseId => created responseId
  | .outputTextDelta itemId delta => textDelta itemId delta
  | .reasoningDelta itemId delta => reasoningDelta itemId delta
  | .toolCallDelta itemId callId name delta => toolDelta itemId callId name delta
  | .usage usage => takeUsage usage
  | .completed => completed
  | .failed error => failed error

/-- `AnthropicCodec::encode_event`, before its events are written as bytes. -/
def encodeEventValues (event : CanonicalEvent) : Sending := do
  let c ← get
  lift (requireThat (!c.terminal))
  validateContextOnce
  handle event

/-- `AnthropicCodec::encode_event`. -/
def encodeEvent (event : CanonicalEvent) : Call GatewayError AnthropicCodec Bytes := do
  let wires ← encodeEventValues event
  return wires.flatMap fun e => encodeSse (some e.1) e.2

end AnthropicCodec

/-! ## The aggregator -/

inductive AggregateOutput where
  | text (itemId text : String)
  | reasoning (itemId thinking : String)
  | tool (itemId callId name partialJson : String)
deriving DecidableEq

structure AnthropicResponseAggregator where
  context : AnthropicEncodeContext
  limits : AnthropicLimits
  terminal : Bool
  failed : Option Value
  responseId : Option String
  outputs : List AggregateOutput
  seenItems : List String
  callIds : List String
  aggregateBytes : Nat
  usage : Option Usage

variable (F : FloatReader)

namespace AnthropicResponseAggregator

def new (context : AnthropicEncodeContext) (limits : AnthropicLimits) :
    AnthropicResponseAggregator where
  context := context
  limits := limits
  terminal := false
  failed := none
  responseId := none
  outputs := []
  seenItems := []
  callIds := []
  aggregateBytes := 0
  usage := none

abbrev Aggregated := Result AnthropicResponseAggregator

variable (a : AnthropicResponseAggregator)

/-- `AnthropicResponseAggregator::require_created`. -/
def requireCreated : Result Unit := requireThat a.responseId.isSome

/-- `AnthropicResponseAggregator::require_delta_allowed`. -/
def requireDeltaAllowed : Result Unit := do
  a.requireCreated
  requireThat a.usage.isNone

/-- `AnthropicResponseAggregator::ensure_payload_capacity`. -/
def ensurePayloadCapacity (additional : Nat) : Result Unit :=
  requireThat ((checkedAdd u64Max a.aggregateBytes additional).any fun total =>
    total ≤ a.limits.maxAggregateBytes)

/-- `AnthropicResponseAggregator::register_item`. -/
def registerItem (itemId : String) : Aggregated := do
  a.limits.validateIdentifier itemId
  requireThat (!(a.seenItems.length ≥ a.limits.maxOutputItems || a.seenItems.contains itemId))
  return { a with seenItems := itemId :: a.seenItems }

/-- The last output with the text of `item` added, if `item` continues it. -/
def extendLast (outputs : List AggregateOutput) (item : AggregateOutput) :
    Option (List AggregateOutput) :=
  match outputs.getLast?, item with
  | some (.text active text), .text itemId delta =>
    if active = itemId then some (outputs.dropLast ++ [.text active (text ++ delta)]) else none
  | some (.reasoning active thinking), .reasoning itemId delta =>
    if active = itemId then some (outputs.dropLast ++ [.reasoning active (thinking ++ delta)])
      else none
  | some (.tool activeItem activeCall activeName partialJson), .tool itemId callId name delta =>
    if activeItem = itemId ∧ activeCall = callId ∧ activeName = name then
      some (outputs.dropLast ++ [.tool activeItem activeCall activeName (partialJson ++ delta)])
    else none
  | _, _ => none

/-- A new output, with its item registered and, of a tool, its call. -/
def pushOutput (item : AggregateOutput) : Aggregated :=
  match item with
  | .text itemId _ | .reasoning itemId _ => do
    let a ← a.registerItem itemId
    return { a with outputs := a.outputs ++ [item] }
  | .tool itemId callId _ _ => do
    let a ← a.registerItem itemId
    requireThat (!a.callIds.contains callId)
    return { a with callIds := callId :: a.callIds, outputs := a.outputs ++ [item] }

/-- The `match` of all three `append` functions. -/
def extendOrPush (item : AggregateOutput) : Aggregated :=
  match extendLast a.outputs item with
  | some outputs => .ok { a with outputs }
  | none => a.pushOutput item

/-- The end of all three `append` functions. -/
def appendItem (item : AggregateOutput) (size : Nat) : Aggregated := do
  let a ← a.extendOrPush item
  return { a with aggregateBytes := a.aggregateBytes + size }

/-- `AnthropicResponseAggregator::append_text`. -/
def appendText (itemId delta : String) : Aggregated := do
  a.requireDeltaAllowed
  a.ensurePayloadCapacity delta.utf8ByteSize
  a.appendItem (.text itemId delta) delta.utf8ByteSize

/-- `AnthropicResponseAggregator::append_reasoning`. -/
def appendReasoning (itemId delta : String) : Aggregated := do
  a.requireDeltaAllowed
  a.ensurePayloadCapacity delta.utf8ByteSize
  if a.context.response.thinkingSignatures.contains itemId then
    a.appendItem (.reasoning itemId delta) delta.utf8ByteSize
  else .error .unsupportedCapability

/-- `AnthropicResponseAggregator::append_tool`. -/
def appendTool (itemId callId name delta : String) : Aggregated := do
  a.requireDeltaAllowed
  a.ensurePayloadCapacity delta.utf8ByteSize
  a.limits.validateIdentifier callId
  a.limits.validateIdentifier name
  a.appendItem (.tool itemId callId name delta) delta.utf8ByteSize

/-- `AnthropicResponseAggregator::created`. -/
def created (responseId : String) : Aggregated := do
  requireThat a.responseId.isNone
  a.limits.validateIdentifier responseId
  return { a with responseId := some responseId }

/-- `AnthropicResponseAggregator::set_usage`. -/
def setUsage (usage : Usage) : Aggregated := do
  a.requireCreated
  requireThat a.usage.isNone
  a.limits.validateValue (anthropicUsageValue usage).tree
  return { a with usage := some usage }

/-- `AnthropicResponseAggregator::completed`. -/
def completed : Aggregated := do
  a.requireCreated
  requireThat (!(a.usage.isNone || a.outputs.isEmpty))
  return { a with terminal := true }

/-- `error_value_with_request_id`. -/
def errorValueWithRequestId (error : GatewayError) (requestId : String) : Value :=
  (Json.obj [("type", .str "error"), ("error", .obj [("type", .str (anthropicErrorType error)),
    ("message", .str error.publicMessage)]), ("request_id", .str requestId)]).toValue

/-- `AnthropicResponseAggregator::transition`. -/
def transition (event : CanonicalEvent) : Aggregated := do
  requireThat (!a.terminal)
  match event with
  | .created responseId => a.created responseId
  | .outputTextDelta itemId delta => a.appendText itemId delta
  | .reasoningDelta itemId delta => a.appendReasoning itemId delta
  | .toolCallDelta itemId callId name delta => a.appendTool itemId callId name delta
  | .usage usage => a.setUsage usage
  | .completed => a.completed
  | .failed error => .ok { a with
      failed := some (errorValueWithRequestId error a.context.requestId), terminal := true }

/-- One block of the message; the arguments of a call are parsed and must be an object. -/
def contentBlock (a : AnthropicResponseAggregator) : AggregateOutput → Result Json
  | .text _ text => .ok (.obj [("type", .str "text"), ("text", .str text)])
  | .reasoning itemId thinking => do
    let signature ← a.context.response.signatureOf itemId
    return .obj [("type", .str "thinking"), ("thinking", .str thinking),
      ("signature", .str signature)]
  | .tool _ callId name partialJson => do
    let input ← Upstream.readText F partialJson
    requireThat input.isObject
    return .obj [("type", .str "tool_use"), ("id", .str callId), ("name", .str name),
      ("input", input)]

/-- `AnthropicResponseAggregator::response_value`. -/
def responseValue (a : AnthropicResponseAggregator) : Result Value := do
  let responseId ← orInvalid a.responseId
  let usage ← orInvalid a.usage
  let content ← a.outputs.mapM (contentBlock F a)
  return (Json.obj (orInsertAll
    [("id", .str responseId), ("type", .str "message"), ("role", .str "assistant"),
      ("content", .arr content), ("model", .str a.context.model),
      ("stop_reason", .str a.context.response.stopReason.asStr),
      ("stop_sequence", optionJson .str a.context.response.stopSequence),
      ("usage", (anthropicUsageValue usage).tree)] a.context.response.extra)).toValue

/-- `AnthropicResponseAggregator::encode`. -/
def encode (a : AnthropicResponseAggregator) (events : Events) : Result Value := do
  a.limits.validateContext a.context
  let a ← events.foldlM transition a
  requireThat a.terminal
  match a.failed with
  | some error => return error
  | none => a.responseValue F

end AnthropicResponseAggregator

/-- `AnthropicCodec::encode_response`. -/
def AnthropicCodec.encodeResponse (context : AnthropicEncodeContext)
    (events : Events) : Result Value :=
  (AnthropicResponseAggregator.new context .default).encode F events

end Wokcore.Protocols.Outbound
