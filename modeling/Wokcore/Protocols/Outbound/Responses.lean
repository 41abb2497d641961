import Wokcore.Protocols.Outbound.Common

/-!
# The OpenAI Responses codec (`outbound/openai_responses.rs`)

`ResponsesCodec` sends the events of a response, numbered from one, and keeps all output items, so
that it can repeat them at the end. `encode_response` runs the same codec and keeps the response of
its last event.
-/

set_option autoImplicit false

namespace Wokcore.Protocols.Outbound

open Lib Protocols.Stream Call Value

/-! ## Context and limits -/

/-- `ResponsesResponseTemplate`. A temperature or a `top_p` that is not finite is written as `null`,
    as one that is missing, so floats are the texts they are written as. -/
structure ResponsesResponseTemplate where
  completedAt : Option UInt64
  error : Option Value
  incompleteDetails : Option Value
  instructions : Option Value
  maxOutputTokens : Option UInt64
  metadata : Extensions
  parallelToolCalls : Bool
  previousResponseId : Option String
  reasoning : Value
  store : Bool
  temperature : Option FloatText
  text : Value
  toolChoice : Value
  tools : List Value
  topP : Option FloatText
  truncation : Value
  user : Option String

structure ResponsesEncodeContext where
  model : String
  createdAt : UInt64
  response : ResponsesResponseTemplate

structure ResponsesLimits where
  maxOutputItems : Nat
  maxIdentifierBytes : Nat
  maxAggregateBytes : Nat
  maxValueBytes : Nat

def ResponsesLimits.default : ResponsesLimits where
  maxOutputItems := 4096
  maxIdentifierBytes := 512
  maxAggregateBytes := 16 * 1024 * 1024
  maxValueBytes := 1024 * 1024

/-- The members of a usage that are not extensions. -/
def responsesUsageFields (usage : Usage) : Members :=
  [("input_tokens", .ofWord usage.inputTokens),
   ("input_tokens_details", .obj [("cached_tokens", .ofWord (usage.cachedInputTokens.getD 0))]),
   ("output_tokens", .ofWord usage.outputTokens),
   ("output_tokens_details", .obj [("reasoning_tokens", .ofWord (usage.reasoningTokens.getD 0))]),
   ("total_tokens", .ofWord (satWord usage.inputTokens usage.outputTokens))]

/-- `usage_value`. -/
def responsesUsageValue (usage : Usage) : Value :=
  (Json.obj (orInsertAll (responsesUsageFields usage) usage.extensions)).toValue

namespace ResponsesLimits

variable (limits : ResponsesLimits)

/-- `ResponsesLimits::validate_identifier`. -/
def validateIdentifier : String → Result Unit :=
  checkIdentifier limits.maxIdentifierBytes

/-- `ResponsesLimits::validate_string_map`. -/
def validateStringMap : Extensions → Result Unit :=
  checkStringMap limits.maxOutputItems limits.maxIdentifierBytes limits.maxValueBytes

/-- `ResponsesLimits::validate_serialized`. -/
def validateSerialized : Json → Result Unit := checkSerialized limits.maxValueBytes

/-- `ResponsesLimits::validate_context`. -/
def validateContext (context : ResponsesEncodeContext) : Result Unit := do
  limits.validateIdentifier context.model
  context.response.previousResponseId.forM limits.validateIdentifier
  limits.validateStringMap context.response.metadata
  requireThat (!(context.response.tools.length > limits.maxOutputItems))
  limits.validateSerialized (optionJson tree context.response.error)
  limits.validateSerialized (optionJson tree context.response.incompleteDetails)
  limits.validateSerialized (optionJson tree context.response.instructions)
  limits.validateSerialized context.response.reasoning.tree
  limits.validateSerialized context.response.text.tree
  limits.validateSerialized context.response.toolChoice.tree
  limits.validateSerialized (.arr (context.response.tools.map tree))
  limits.validateSerialized context.response.truncation.tree
  limits.validateSerialized (optionJson .str context.response.user)

/-- `ResponsesLimits::validate_usage`. -/
def validateUsage (usage : Usage) : Result Value := do
  limits.validateStringMap usage.extensions
  limits.validateSerialized (responsesUsageValue usage).tree
  return responsesUsageValue usage

end ResponsesLimits

/-! ## Output items -/

inductive ResponsesOutput where
  | text (itemId text : String)
  | reasoning (itemId text : String)
  | tool (itemId callId name arguments : String)
deriving DecidableEq

namespace ResponsesOutput

/-- `ResponsesOutput::item_id`. -/
def itemId : ResponsesOutput → String
  | .text itemId _ => itemId
  | .reasoning itemId _ => itemId
  | .tool itemId _ _ _ => itemId

/-- `ResponsesOutput::value`. -/
def value : ResponsesOutput → Json
  | .text itemId content => .obj [("id", .str itemId), ("type", .str "message"),
      ("role", .str "assistant"), ("status", .str "completed"),
        ("content", .arr
          [.obj [("type", .str "output_text"), ("text", .str content), ("annotations", .arr [])]])]
  | .reasoning itemId summary => .obj [("id", .str itemId), ("type", .str "reasoning"),
      ("status", .str "completed"),
      ("summary", .arr [.obj [("type", .str "summary_text"), ("text", .str summary)]])]
  | .tool itemId callId name arguments => .obj [("id", .str itemId), ("type", .str "function_call"),
      ("call_id", .str callId), ("name", .str name), ("arguments", .str arguments),
      ("status", .str "completed")]

/-- The output with more text, if it is of the kind and identity of `delta`, an output with the text
    alone. -/
def extend : ResponsesOutput → ResponsesOutput → Option ResponsesOutput
  | .text itemId content, .text _ delta => some (.text itemId (content ++ delta))
  | .reasoning itemId summary, .reasoning _ delta => some (.reasoning itemId (summary ++ delta))
  | .tool itemId callId name arguments, .tool _ callId' name' delta =>
    if callId = callId' ∧ name = name' then some (.tool itemId callId name (arguments ++ delta))
      else none
  | _, _ => none

/-- The text of an output. -/
def payload : ResponsesOutput → String
  | .text _ content => content
  | .reasoning _ summary => summary
  | .tool _ _ _ arguments => arguments

/-- The outputs have a call in common. -/
def sameCall : ResponsesOutput → ResponsesOutput → Bool
  | .tool _ callId _ _, .tool _ callId' _ _ => callId == callId'
  | _, _ => false

end ResponsesOutput

/-! ## The codec -/

structure ResponsesCodec where
  context : ResponsesEncodeContext
  limits : ResponsesLimits
  contextValidated : Bool
  terminal : Bool
  sequenceNumber : Nat
  responseId : Option String
  output : List ResponsesOutput
  aggregateBytes : Nat
  usage : Option Value

/-- The name of an event and its members, before it is numbered. -/
abbrev Unnumbered := String × Members

abbrev WireEvent := String × Value

/-- `wire_event`, for an event with its number. -/
def wireEvent (number : Nat) (event : Unnumbered) : WireEvent :=
  (event.1, (Json.obj
    ([("type", .str event.1)] ++ event.2 ++ [("sequence_number", .ofNat number)])).toValue)

def wireFrom (number : Nat) : List Unnumbered → List WireEvent
  | [] => []
  | event :: events => wireEvent number event :: wireFrom (number + 1) events

namespace ResponsesCodec

def withLimits (context : ResponsesEncodeContext) (limits : ResponsesLimits) : ResponsesCodec where
  context := context
  limits := limits
  contextValidated := false
  terminal := false
  sequenceNumber := 1
  responseId := none
  output := []
  aggregateBytes := 0
  usage := none

def new (context : ResponsesEncodeContext) : ResponsesCodec := withLimits context .default

/-- A call that gives out what is to be sent. -/
abbrev Sending := Call GatewayError ResponsesCodec (List WireEvent)

/-- `ResponsesCodec::wire`, for the events of one call in order. -/
def wires (events : List Unnumbered) : Sending := do
  let c ← get
  set { c with sequenceNumber := c.sequenceNumber + events.length }
  return wireFrom c.sequenceNumber events

variable (c : ResponsesCodec)

/-- `ResponsesCodec::response_value`. -/
def responseValue (status : String) (output : List Json) (usage : Json) : Json :=
  let template := c.context.response
  .obj [("id", .str (c.responseId.getD "")), ("object", .str "response"),
    ("created_at", .ofWord c.context.createdAt), ("status", .str status),
    ("completed_at", if status = "completed" then optionJson .ofWord template.completedAt
    else .null), ("error", optionJson tree template.error),
    ("incomplete_details", optionJson tree template.incompleteDetails),
    ("instructions", optionJson tree template.instructions),
    ("max_output_tokens", optionJson .ofWord template.maxOutputTokens),
    ("model", .str c.context.model), ("output", .arr output),
    ("parallel_tool_calls", .bool template.parallelToolCalls),
    ("previous_response_id", optionJson .str template.previousResponseId),
    ("reasoning", template.reasoning.tree), ("store", .bool template.store),
    ("temperature", optionJson (fun t => .num (.float t)) template.temperature),
    ("text", template.text.tree), ("tool_choice", template.toolChoice.tree),
    ("tools", .arr (template.tools.map tree)),
    ("top_p", optionJson (fun t => .num (.float t)) template.topP),
    ("truncation", template.truncation.tree), ("usage", usage),
    ("user", optionJson .str template.user), ("metadata", (object template.metadata).tree)]

/-- `ResponsesCodec::require_created`. -/
def requireCreated : Result Unit := requireThat c.responseId.isSome

/-- `ResponsesCodec::require_delta_allowed`. -/
def requireDeltaAllowed : Result Unit := do
  c.requireCreated
  requireThat c.usage.isNone

/-- `ResponsesCodec::validate_context_once`. -/
def validateContextOnce : Call GatewayError ResponsesCodec Unit :=
  validateOnce contextValidated (fun c => c.limits.validateContext c.context)
    fun c => { c with contextValidated := true }

/-- `ResponsesCodec::checked_aggregate_bytes`. -/
def checkedAggregateBytes (additional : Nat) : Result Nat :=
  checkAggregate c.limits.maxAggregateBytes c.aggregateBytes additional

/-- `ResponsesCodec::find_output`. -/
def findOutput (itemId : String) : Option Nat :=
  c.output.findIdx? fun output => output.itemId == itemId

/-- What `append_text`, `append_reasoning` and `append_tool` share once the identifiers are checked:
    a known item must be of the same kind and identity, a new one needs room and must not repeat the
    call of another. -/
def append (item : ResponsesOutput) : Result (ResponsesCodec × Nat × Bool) :=
  match c.findOutput item.itemId with
  | some outputIndex => do
    let extended ← orInvalid ((c.output[outputIndex]?).bind fun output => output.extend item)
    let aggregateBytes ← c.checkedAggregateBytes item.payload.utf8ByteSize
    return ({ c with output := c.output.set outputIndex extended, aggregateBytes },
      outputIndex, false)
  | none => do
    requireThat (!(c.output.length ≥ c.limits.maxOutputItems || c.output.any fun output =>
      output.sameCall item))
    let aggregateBytes ← c.checkedAggregateBytes item.payload.utf8ByteSize
    return ({ c with output := c.output ++ [item], aggregateBytes }, c.output.length, true)

/-- `ResponsesCodec::append_text`. -/
def appendText (itemId delta : String) : Result (ResponsesCodec × Nat × Bool) := do
  c.limits.validateIdentifier itemId
  c.append (.text itemId delta)

/-- `ResponsesCodec::append_reasoning`. -/
def appendReasoning (itemId delta : String) : Result (ResponsesCodec × Nat × Bool) := do
  c.limits.validateIdentifier itemId
  c.append (.reasoning itemId delta)

/-- `ResponsesCodec::append_tool`. -/
def appendTool (itemId callId name delta : String) : Result (ResponsesCodec × Nat × Bool) := do
  c.limits.validateIdentifier itemId
  c.limits.validateIdentifier callId
  c.limits.validateIdentifier name
  c.append (.tool itemId callId name delta)

/-! ### The events of a delta -/

def textPart (text : String) : Json :=
  .obj [("type", .str "output_text"), ("text", .str text), ("annotations", .arr [])]

def summaryPart (text : String) : Json := .obj [("type", .str "summary_text"), ("text", .str text)]

/-- The events that announce a new item. -/
def announcement (outputIndex : Nat) : ResponsesOutput → List Unnumbered
  | .text itemId _ =>
    [("response.output_item.added", [("output_index", .ofNat outputIndex), ("item",
        .obj [("id", .str itemId), ("type", .str "message"), ("role", .str "assistant"),
          ("status", .str "in_progress"), ("content", .arr [])])]),
     ("response.content_part.added",
        [("item_id", .str itemId), ("output_index", .ofNat outputIndex),
          ("content_index", .ofNat 0), ("part", textPart "")])]
  | .reasoning itemId _ =>
    [("response.output_item.added", [("output_index", .ofNat outputIndex), ("item",
        .obj [("id", .str itemId), ("type", .str "reasoning"), ("status", .str "in_progress"),
          ("summary", .arr [])])]),
     ("response.reasoning_summary_part.added",
        [("item_id", .str itemId), ("output_index", .ofNat outputIndex),
          ("summary_index", .ofNat 0), ("part", summaryPart "")])]
  | .tool itemId callId name _ =>
    [("response.output_item.added", [("output_index", .ofNat outputIndex), ("item",
        .obj [("id", .str itemId), ("type", .str "function_call"), ("call_id", .str callId),
          ("name", .str name), ("arguments", .str ""), ("status", .str "in_progress")])])]

/-- The event that carries a delta. -/
def deltaEvent (outputIndex : Nat) : ResponsesOutput → Unnumbered
  | .text itemId delta =>
    ("response.output_text.delta", [("item_id", .str itemId), ("output_index", .ofNat outputIndex),
      ("content_index", .ofNat 0), ("delta", .str delta)])
  | .reasoning itemId delta =>
    ("response.reasoning_summary_text.delta",
      [("item_id", .str itemId), ("output_index", .ofNat outputIndex), ("summary_index", .ofNat 0),
        ("delta", .str delta)])
  | .tool itemId _ _ delta =>
    ("response.function_call_arguments.delta",
      [("item_id", .str itemId), ("output_index", .ofNat outputIndex), ("delta", .str delta)])

/-- The events of a delta, given where it was appended. -/
def deltaEvents (item : ResponsesOutput) (outputIndex : Nat) (isNew : Bool) : List Unnumbered :=
  (if isNew then announcement outputIndex item else []) ++ [deltaEvent outputIndex item]

/-- `ResponsesCodec::encode_text_delta`. -/
def encodeTextDelta (itemId delta : String) : Sending := do
  let c ← get
  lift c.requireDeltaAllowed
  let (c, outputIndex, isNew) ← lift (c.appendText itemId delta)
  set c
  wires (deltaEvents (.text itemId delta) outputIndex isNew)

/-- `ResponsesCodec::encode_reasoning_delta`. -/
def encodeReasoningDelta (itemId delta : String) : Sending := do
  let c ← get
  lift c.requireDeltaAllowed
  let (c, outputIndex, isNew) ← lift (c.appendReasoning itemId delta)
  set c
  wires (deltaEvents (.reasoning itemId delta) outputIndex isNew)

/-- `ResponsesCodec::encode_tool_delta`. -/
def encodeToolDelta (itemId callId name delta : String) : Sending := do
  let c ← get
  lift c.requireDeltaAllowed
  let (c, outputIndex, isNew) ← lift (c.appendTool itemId callId name delta)
  set c
  wires (deltaEvents (.tool itemId callId name delta) outputIndex isNew)

/-! ### The other events -/

/-- `ResponsesCodec::encode_created`. -/
def encodeCreated (responseId : String) : Sending := do
  let c ← get
  lift (requireThat c.responseId.isNone)
  lift (c.limits.validateIdentifier responseId)
  let c := { c with responseId := some responseId }
  set c
  wires [("response.created", [("response", c.responseValue "in_progress" [] .null)])]

/-- `ResponsesCodec::encode_usage`. -/
def encodeUsage (usage : Usage) : Sending := do
  let c ← get
  lift c.requireCreated
  lift (requireThat c.usage.isNone)
  let value ← lift (c.limits.validateUsage usage)
  set { c with usage := some value }
  return []

/-- The events that end an item. -/
def doneEvents : ResponsesOutput × Nat → List Unnumbered
  | (.text itemId text, outputIndex) =>
    [("response.output_text.done", [("item_id", .str itemId), ("output_index", .ofNat outputIndex),
        ("content_index", .ofNat 0), ("text", .str text)]),
     ("response.content_part.done", [("item_id", .str itemId), ("output_index", .ofNat outputIndex),
        ("content_index", .ofNat 0), ("part", textPart text)]),
     ("response.output_item.done", [("output_index", .ofNat outputIndex),
        ("item", (ResponsesOutput.text itemId text).value)])]
  | (.reasoning itemId text, outputIndex) =>
    [("response.reasoning_summary_text.done",
        [("item_id", .str itemId), ("output_index", .ofNat outputIndex),
     ("summary_index", .ofNat 0), ("text", .str text)]),
        ("response.reasoning_summary_part.done",
     [("item_id", .str itemId), ("output_index", .ofNat outputIndex), ("summary_index", .ofNat 0),
        ("part", summaryPart text)]),
        ("response.output_item.done",
          [("output_index", .ofNat outputIndex),
            ("item", (ResponsesOutput.reasoning itemId text).value)])]
  | (.tool itemId callId name arguments, outputIndex) =>
    [("response.function_call_arguments.done", [("item_id", .str itemId), ("name", .str name),
        ("output_index", .ofNat outputIndex), ("arguments", .str arguments)]),
     ("response.output_item.done", [("output_index", .ofNat outputIndex),
        ("item", (ResponsesOutput.tool itemId callId name arguments).value)])]

/-- The status of a response that ends, and the name of its last event. -/
def ending : String × String :=
  if c.context.response.incompleteDetails.isSome then ("incomplete", "response.incomplete")
  else ("completed", "response.completed")

/-- `ResponsesCodec::encode_completed`. -/
def encodeCompleted : Sending := do
  let c ← get
  lift c.requireCreated
  let usage ← lift (orInvalid c.usage)
  let response := c.responseValue c.ending.1 (c.output.map ResponsesOutput.value) usage.tree
  set { c with terminal := true }
  wires (c.output.zipIdx.flatMap doneEvents ++ [(c.ending.2, [("response", response)])])

/-- `ResponsesCodec::encode_failed`. -/
def encodeFailed (error : GatewayError) : Sending := do
  let c ← get
  set { c with terminal := true }
  wires [("error", [("code", .str error.code), ("message", .str error.publicMessage),
    ("param", .null)])]

/-- The arms of `ResponsesCodec::encode_event_values`. -/
def handle : CanonicalEvent → Sending
  | .created responseId => encodeCreated responseId
  | .outputTextDelta itemId delta => encodeTextDelta itemId delta
  | .reasoningDelta itemId delta => encodeReasoningDelta itemId delta
  | .toolCallDelta itemId callId name delta => encodeToolDelta itemId callId name delta
  | .usage usage => encodeUsage usage
  | .completed => encodeCompleted
  | .failed error => encodeFailed error

/-- `ResponsesCodec::encode_event_values`. -/
def encodeEventValues (event : CanonicalEvent) : Sending := do
  let c ← get
  lift (requireThat (!c.terminal))
  validateContextOnce
  handle event

/-- `ResponsesCodec::encode_event`. -/
def encodeEvent (event : CanonicalEvent) : Call GatewayError ResponsesCodec Bytes := do
  let events ← encodeEventValues event
  return events.flatMap fun e => encodeSse (some e.1) e.2

/-! ### Without a stream -/

/-- What an event leaves as the response, if it is one that ends it. -/
def answer (events : List WireEvent) (response : Option Json) : CanonicalEvent → Option Json
  | .completed => events.getLast?.bind fun e => e.2.tree.get? "response"
  | .failed error =>
      some (.obj [("error", .obj [("type", .str "gateway_error"), ("code", .str error.code),
        ("message", .str error.publicMessage)])])
  | _ => response

/-- One turn of the loop of `encode_response_with_limits`. -/
def respond (r : ResponsesCodec × Option Json) (event : CanonicalEvent) :
    Result (ResponsesCodec × Option Json) := do
  let (c, events) ← (encodeEventValues event).outcome r.1
  return (c, answer events r.2 event)

/-- `ResponsesCodec::encode_response`. -/
def encodeResponse (context : ResponsesEncodeContext) (events : Events) : Result Value := do
  let (c, response) ← events.foldlM respond (new context, none)
  requireThat c.terminal
  let response ← orInvalid response
  return response.toValue

end ResponsesCodec

end Wokcore.Protocols.Outbound
