import Wokcore.Protocols.Upstream.Request

/-!
# Decoding complete upstream responses (`upstream/mod.rs`)

`decode_responses_complete` and `decode_anthropic_complete` read a whole response body of their
protocol into canonical events. The helpers at the top are shared with the stream decoders. An event
list that is built up is passed from step to step, because `push_event` bounds its length.
-/

set_option autoImplicit false

namespace Wokcore.Protocols.Upstream

open Lib

/-! ## Reading -/

variable (F : FloatReader)

/-- `serde_json::from_slice` into a `Value`. -/
def readSlice (body : Bytes) : Result Json :=
  orInvalid ((fromSlice F body).map Json.norm)

/-- `serde_json::from_str` into a `Value`. -/
def readText (text : String) : Result Json :=
  orInvalid ((parse F text.toList).map Json.norm)

variable (value : Json)

/-- `value.get(key).and_then(Value::as_str)`. -/
def stringAt (key : String) : Option String := (value.get? key).bind Json.asStr

/-- `required_string`. -/
def requiredString (key : String) : Result String := orInvalid (stringAt value key)

/-- `optional_u64`. -/
def optionalU64 (key : String) : Result (Option UInt64) :=
  match value.get? key with
  | none => .ok none
  | some number => (orInvalid number.asWord).map some

/-- `details.map(|details| optional_u64(details, key)).transpose()?.flatten()`. -/
def detailU64 (details key : String) : Result (Option UInt64) :=
  match value.get? details with
  | none => .ok none
  | some details => optionalU64 details key

/-- An array, at most `max_collection_items` long. -/
def boundedArray (limits : UpstreamLimits) : Result (List Json) := do
  let values ← orInvalid value.asArray
  requireThat (!(values.length > limits.maxCollectionItems))
  return values

/-! ## Usage -/

/-- `empty_usage`. -/
def emptyUsage : Usage := ⟨0, 0, none, none, .empty⟩

/-- `openai_responses_usage`. -/
def openaiResponsesUsage (value : Option Json) (limits : UpstreamLimits) : Result Usage :=
  match value with
  | none => .ok emptyUsage
  | some value => do
    validateValueSize value.toValue limits.maxResponseBodyBytes
    let inputTokens ← optionalU64 value "input_tokens"
    let outputTokens ← optionalU64 value "output_tokens"
    let cachedInputTokens ← detailU64 value "input_tokens_details" "cached_tokens"
    let reasoningTokens ← detailU64 value "output_tokens_details" "reasoning_tokens"
    return ⟨inputTokens.getD 0, outputTokens.getD 0, cachedInputTokens, reasoningTokens, .empty⟩

/-- `anthropic_usage`. -/
def anthropicUsage (value : Option Json) (limits : UpstreamLimits) : Result Usage :=
  match value with
  | none => .ok emptyUsage
  | some value => do
    validateValueSize value.toValue limits.maxResponseBodyBytes
    let inputTokens ← optionalU64 value "input_tokens"
    let outputTokens ← optionalU64 value "output_tokens"
    let cachedInputTokens ← optionalU64 value "cache_read_input_tokens"
    return ⟨inputTokens.getD 0, outputTokens.getD 0, cachedInputTokens, none, .empty⟩

/-! ## Event lists -/

variable (events : Events)

/-- `push_event`. -/
def pushEvent (event : CanonicalEvent) (limits : UpstreamLimits) : Result Events :=
  if events.length ≥ limits.maxEvents then .error .invalidRequest else .ok (events ++ [event])

/-- A text delta, or a reasoning delta. -/
def textEvent (itemId text : String) (reasoning : Bool) : CanonicalEvent :=
  if reasoning then .reasoningDelta itemId text else .outputTextDelta itemId text

/-- `push_text` of `upstream/mod.rs`. -/
def pushText (itemId text : String) (reasoning : Bool)
    (limits : UpstreamLimits) : Result Events := do
  validateIdentifier itemId limits.maxIdentifierBytes
  requireThat (!(text.utf8ByteSize > limits.maxTextDeltaBytes))
  pushEvent events (textEvent itemId text reasoning) limits

/-- `push_tool` of `upstream/mod.rs`. -/
def pushTool (itemId callId name delta : String) (limits : UpstreamLimits) : Result Events := do
  validateIdentifier itemId limits.maxIdentifierBytes
  validateIdentifier callId limits.maxIdentifierBytes
  validateIdentifier name limits.maxIdentifierBytes
  requireThat (!(delta.utf8ByteSize > limits.maxToolArgumentBytes))
  pushEvent events (.toolCallDelta itemId callId name delta) limits

/-- The identifier of a numbered item. -/
def numbered (stem : String) (index : Nat) : String := stem ++ toString index

/-! ## Responses -/

/-- One part of a message in `decode_responses_output`. -/
def decodeMessagePart (itemId : String) (limits : UpstreamLimits) (events : Events)
    (part : Json) : Result Events :=
  match stringAt part "text" with
  | some text =>
    if stringAt part "type" = some "output_text" ∨ stringAt part "type" = some "refusal" then
      pushText events itemId text false limits
    else .ok events
  | none => .ok events

/-- One part of a summary in `decode_responses_output`. -/
def decodeSummaryPart (itemId : String) (limits : UpstreamLimits) (events : Events)
    (part : Json) : Result Events :=
  match stringAt part "text" with
  | some text => pushText events itemId text true limits
  | none => .ok events

/-- The kinds of output items `decode_responses_output` tells apart. -/
inductive OutputKind where
  | message
  | reasoning
  | functionCall
  | other
deriving DecidableEq

def OutputKind.ofString (kind : String) : OutputKind :=
  if kind = "message" then .message
  else if kind = "reasoning" then .reasoning
  else if kind = "function_call" then .functionCall
  else .other

/-- The arms of `decode_responses_output`. -/
def decodeOutputItem (kind : OutputKind) (itemId : String) (item : Json) (limits : UpstreamLimits)
    (events : Events) : Result Events :=
  match kind with
  | .message => do
    let content ← orInvalid ((item.get? "content").bind Json.asArray)
    content.foldlM (decodeMessagePart itemId limits) events
  | .reasoning =>
    match (item.get? "summary").bind Json.asArray with
    | some summary => summary.foldlM (decodeSummaryPart itemId limits) events
    | none => .ok events
  | .functionCall => do
    let callId ← requiredString item "call_id"
    let name ← requiredString item "name"
    let arguments ← requiredString item "arguments"
    pushTool events itemId callId name arguments limits
  | .other => .ok events

/-- `decode_responses_output`. -/
def decodeResponsesOutput (limits : UpstreamLimits) (events : Events) (entry : Json × Nat) :
    Result Events := do
  let (item, index) := entry
  let kind ← requiredString item "type"
  let itemId := (stringAt item "id").getD (numbered "responses_item_" index)
  validateIdentifier itemId limits.maxIdentifierBytes
  decodeOutputItem (.ofString kind) itemId item limits events

/-- The end of a complete response: its usage and `Completed`. -/
def endResponse (usage : Usage) (limits : UpstreamLimits) : Result Events := do
  let events ← pushEvent events (.usage usage) limits
  pushEvent events .completed limits

/-- `decode_responses_complete`. -/
def decodeResponsesComplete (requestId : String) (body : Bytes) (limits : UpstreamLimits) :
    Result Events := do
  let root ← readSlice F body
  Outcome.rejectIf (root.get? "error").isSome (.upstreamResponse 502 "responses upstream error")
  let responseId := (stringAt root "id").getD requestId
  validateIdentifier responseId limits.maxIdentifierBytes
  let output ← orInvalid ((root.get? "output").bind Json.asArray)
  requireThat (!(output.length > limits.maxCollectionItems))
  let events ← output.zipIdx.foldlM (decodeResponsesOutput limits) [.created responseId]
  let usage ← openaiResponsesUsage (root.get? "usage") limits
  endResponse events usage limits

/-! ## Anthropic -/

/-- The kinds of content blocks the Anthropic decoders tell apart. -/
inductive BlockKind where
  | text
  | thinking
  | toolUse
  | other
deriving DecidableEq

def BlockKind.ofString (kind : String) : BlockKind :=
  if kind = "text" then .text
  else if kind = "thinking" then .thinking
  else if kind = "tool_use" then .toolUse
  else .other

/-- `block.get("input").unwrap_or(&Value::Object(Map::new()))` as text. -/
def argumentsText (key : String) : String :=
  .ofList ((value.get? key).getD (.obj [])).print

/-- One block of `decode_anthropic_complete`. -/
def decodeAnthropicBlock (limits : UpstreamLimits) (events : Events) (entry : Json × Nat) :
    Result Events :=
  let (block, index) := entry
  let itemId := numbered "anthropic_item_" index
  match (stringAt block "type").map BlockKind.ofString with
  | some .text => do
    let text ← requiredString block "text"
    pushText events itemId text false limits
  | some .thinking => do
    let thinking ← requiredString block "thinking"
    pushText events itemId thinking true limits
  | some .toolUse => do
    let callId ← requiredString block "id"
    let name ← requiredString block "name"
    pushTool events itemId callId name (argumentsText block "input") limits
  | _ => .ok events

/-- `decode_anthropic_complete`. -/
def decodeAnthropicComplete (requestId : String) (body : Bytes) (limits : UpstreamLimits) :
    Result Events := do
  let root ← readSlice F body
  Outcome.rejectIf (stringAt root "type" = some "error" || (root.get? "error").isSome)
    (.upstreamResponse 502 "anthropic upstream error")
  let responseId := (stringAt root "id").getD requestId
  validateIdentifier responseId limits.maxIdentifierBytes
  let content ← orInvalid ((root.get? "content").bind Json.asArray)
  requireThat (!(content.length > limits.maxCollectionItems))
  let events ← content.zipIdx.foldlM (decodeAnthropicBlock limits) [.created responseId]
  let usage ← anthropicUsage (root.get? "usage") limits
  endResponse events usage limits

end Wokcore.Protocols.Upstream
