import Wokcore.Lib.Word
import Wokcore.Protocols.Upstream.Decode

/-!
# Response decoders that go document by document (`outbound/azure.rs`, `outbound/gemini.rs`)

The Azure decoder, which OpenAI Chat shares, and the Gemini decoder read a response one JSON
document at a time: all of it from one document, or a stream of it from many. What they remember in
between is a record, and the events of the document at hand are built up next to it.
-/

set_option autoImplicit false

namespace Wokcore.Protocols.Upstream

open Lib Json

/-- `account_stream_events`. -/
def accountStreamEvents (emittedEvents addedEvents : Nat) (limits : UpstreamLimits) :
    Result Nat := do
  let total ← orInvalid (checkedAdd u64Max emittedEvents addedEvents)
  requireThat (!(total > limits.maxEvents))
  return total

/-- A field that may be missing but not be `null` (`deserialize_present`). -/
def presentField {α : Type} (key : String) (read : Json → Option α) (fields : Members) :
    Option (Option α) :=
  Read.withDefault key (fun j => (read j).map some) none fields

/-- `value.get(key).and_then(Value::as_object).ok_or_else(..)`. -/
def requiredObject (value : Json) (key : String) : Result Json :=
  orInvalid ((value.get? key).filter isObject)

/-! ## Azure and OpenAI Chat -/

/-- `AzurePromptTokensDetailsWire` and `AzureCompletionTokensDetailsWire`: one count and the
    rest. -/
def readTokenDetails (key : String) : Json → Option (Option UInt64 × Extensions)
  | .obj fields => do return (← presentField key asWord fields, Read.rest [key] fields)
  | _ => none

/-- `AzureUsageWire`. -/
structure AzureUsageWire where
  promptTokens : Option UInt64
  completionTokens : Option UInt64
  promptTokensDetails : Option (Option UInt64 × Extensions)
  completionTokensDetails : Option (Option UInt64 × Extensions)
  extensions : Extensions

def AzureUsageWire.read : Json → Option AzureUsageWire
  | .obj fields => do
    return {
      promptTokens := ← presentField "prompt_tokens" asWord fields
      completionTokens := ← presentField "completion_tokens" asWord fields
      promptTokensDetails := ←
        presentField "prompt_tokens_details" (readTokenDetails "cached_tokens") fields
      completionTokensDetails := ←
        presentField "completion_tokens_details" (readTokenDetails "reasoning_tokens") fields
      extensions := Read.rest ["prompt_tokens", "completion_tokens", "prompt_tokens_details",
        "completion_tokens_details"] fields }
  | _ => none

/-- What is left of the details is kept among the extensions, unless nothing is. -/
def keepDetails (key : String) (details : Option (Option UInt64 × Extensions))
    (extensions : Extensions) :
    Extensions :=
  match details with
  | some (_, rest) => if rest.isEmpty then extensions else extensions.insert key (.object rest)
  | none => extensions

/-- More unknown members than `max_collection_items`. -/
def tooMany (extensions : Extensions) (limits : UpstreamLimits) : Bool :=
  extensions.entries.length > limits.maxCollectionItems

/-- `openai_usage`. -/
def openaiUsage (value : Json) (limits : UpstreamLimits) : Result Usage := do
  let wire ← orInvalid (AzureUsageWire.read value)
  requireThat (!(tooMany wire.extensions limits
    || wire.promptTokensDetails.any (fun details => tooMany details.2 limits)
    || wire.completionTokensDetails.any (fun details => tooMany details.2 limits)))
  return {
    inputTokens := wire.promptTokens.getD 0
    outputTokens := wire.completionTokens.getD 0
    cachedInputTokens := wire.promptTokensDetails.bind Prod.fst
    reasoningTokens := wire.completionTokensDetails.bind Prod.fst
    extensions := keepDetails "completion_tokens_details" wire.completionTokensDetails
      (keepDetails "prompt_tokens_details" wire.promptTokensDetails wire.extensions) }

structure ToolState where
  itemId : String
  callId : String
  name : String
deriving DecidableEq

structure AzureResponseDecoder where
  requestId : String
  limits : UpstreamLimits
  created : Bool
  completed : Bool
  nextItem : Nat
  toolCalls : List (Nat × ToolState)
  pendingUsage : Option Usage
deriving DecidableEq

variable (d : AzureResponseDecoder)

namespace AzureResponseDecoder

/-- A decoder and the events of the document it is reading. -/
abbrev Reading := AzureResponseDecoder × Events

def new (requestId : String) (limits : UpstreamLimits) : AzureResponseDecoder :=
  { requestId, limits, created := false, completed := false, nextItem := 0, toolCalls := [],
    pendingUsage := none }

variable (r : Reading)

/-- `AzureResponseDecoder::ensure_created`. -/
def ensureCreated (root : Json) : Result Reading :=
  let (d, events) := r
  if d.created then .ok (d, events)
  else do
    let responseId := (stringAt root "id").getD ("azure_" ++ d.requestId)
    validateAsciiIdentifier responseId d.limits.maxIdentifierBytes
    let events ← pushEvent events (.created responseId) d.limits
    return ({ d with created := true }, events)

/-- `AzureResponseDecoder::push_text`. -/
def pushText (text : String) (reasoning : Bool) : Result Reading := do
  let (d, events) := r
  requireThat (!(text.utf8ByteSize > d.limits.maxTextDeltaBytes))
  let events ← pushEvent events (textEvent (numbered "azure_item_" d.nextItem) text reasoning)
    d.limits
  return ({ d with nextItem := d.nextItem + 1 }, events)

/-- `AzureResponseDecoder::register_tool`. -/
def registerTool (index : Nat) (callId name : String) : Result AzureResponseDecoder := do
  validateAsciiIdentifier callId d.limits.maxIdentifierBytes
  validateAsciiIdentifier name d.limits.maxIdentifierBytes
  match d.toolCalls.lookup index with
  | some existing => do
    requireThat (!(existing.callId != callId || existing.name != name))
    return d
  | none => return { d with
      toolCalls := (index, ⟨numbered "azure_tool_" d.nextItem, callId, name⟩) :: d.toolCalls
      nextItem := d.nextItem + 1 }

/-- `AzureResponseDecoder::emit_tool`. -/
def emitTool (index : Nat) (arguments : String) : Result Reading := do
  let (d, events) := r
  requireThat (!(arguments.utf8ByteSize > d.limits.maxToolArgumentBytes))
  let state ← orInvalid (d.toolCalls.lookup index)
  let events ← pushEvent events (.toolCallDelta state.itemId state.callId state.name arguments)
    d.limits
  return (d, events)

/-- `AzureResponseDecoder::push_complete_tool`. -/
def pushCompleteTool (entry : Json × Nat) : Result Reading := do
  let (call, index) := entry
  let function ← requiredObject call "function"
  let callId ← requiredString call "id"
  let name ← requiredString function "name"
  let arguments ← requiredString function "arguments"
  let d ← r.1.registerTool index callId name
  emitTool (d, r.2) index arguments

/-- The `if let (Some(call_id), Some(name))` of `push_tool_delta`. -/
def registerNamed (index : Nat) (callId name : Option String) : Result AzureResponseDecoder :=
  match callId, name with
  | some callId, some name => d.registerTool index callId name
  | _, _ => .ok d

/-- The `if let Some(arguments)` of `push_tool_delta`. -/
def emitArguments (index : Nat) (arguments : Option String) : Result Reading :=
  match arguments with
  | some arguments => emitTool r index arguments
  | none => .ok r

/-- `AzureResponseDecoder::push_tool_delta`. -/
def pushToolDelta (call : Json) : Result Reading := do
  let index ← orInvalid ((call.get? "index").bind asU64)
  requireThat (!(index ≥ r.1.limits.maxCollectionItems))
  let function ← requiredObject call "function"
  let d ← r.1.registerNamed index (stringAt call "id") (stringAt function "name")
  emitArguments (d, r.2) index (stringAt function "arguments")

/-- A text member of a message or a delta, if there is one. -/
def pushMember (fields : Json) (key : String) (reasoning : Bool) : Result Reading :=
  match stringAt fields key with
  | some text => pushText r text reasoning
  | none => .ok r

/-- The tool calls of a message or a delta, if there are any. -/
def pushCalls {α : Type} (r : Reading) (fields : Json) (entries : List Json → List α)
    (push : Reading → α → Result Reading) : Result Reading :=
  match fields.get? "tool_calls" with
  | some calls => do
    let calls ← boundedArray calls r.1.limits
    (entries calls).foldlM push r
  | none => .ok r

/-- One choice of `decode_non_stream`. -/
def decodeChoice (choice : Json) : Result Reading := do
  let message ← requiredObject choice "message"
  let r ← pushMember r message "content" false
  let r ← pushMember r message "reasoning_content" true
  pushCalls r message List.zipIdx pushCompleteTool

/-- One choice of `decode_stream_chunk`. -/
def decodeDelta (choice : Json) : Result Reading := do
  let delta ← requiredObject choice "delta"
  let r ← pushMember r delta "content" false
  let r ← pushMember r delta "reasoning_content" true
  pushCalls r delta id pushToolDelta

/-- `reject_error`. -/
def rejectError (root : Json) : Result Unit :=
  Outcome.rejectIf (root.get? "error").isSome (.upstreamResponse 502 "azure upstream error")

/-- The usage of a document, if it has any. -/
def takeUsage (root : Json) : Result Reading :=
  match root.get? "usage" with
  | some usage => do
    let usage ← openaiUsage usage r.1.limits
    return ({ r.1 with pendingUsage := some usage }, r.2)
  | none => .ok r

/-- `AzureResponseDecoder::decode_non_stream`. -/
def decodeNonStream (root : Json) : Result Reading := do
  rejectError root
  let r ← ensureCreated (d, []) root
  let choices ← orInvalid (root.get? "choices")
  let choices ← boundedArray choices d.limits
  let r ← choices.foldlM decodeChoice r
  takeUsage r root

/-- The choices of `decode_stream_chunk`, if there are any. -/
def decodeChoices (root : Json) : Result Reading :=
  match root.get? "choices" with
  | some choices => do
    let choices ← boundedArray choices r.1.limits
    choices.foldlM decodeDelta r
  | none => .ok r

/-- `AzureResponseDecoder::decode_stream_chunk`. -/
def decodeStreamChunk (root : Json) : Result Reading := do
  rejectError root
  let r ← ensureCreated (d, []) root
  let r ← decodeChoices r root
  takeUsage r root

end AzureResponseDecoder

/-- The end of a response: `Created` if nothing came, the usage if there was any, and
    `Completed`. -/
def closingEvents (created : Bool) (responseId : String) (usage : Option Usage) : Events :=
  (if created then [] else [.created responseId]) ++ (usage.map .usage).toList ++ [.completed]

/-- Event by event, as `push_event` adds them. -/
def pushEvents (limits : UpstreamLimits) (events : Events) : Result Events :=
  events.foldlM (fun done event => pushEvent done event limits) []

/-- `AzureResponseDecoder::finish`. -/
def AzureResponseDecoder.finish : Result Reading :=
  if d.completed then .ok (d, [])
  else do
    let events ← pushEvents d.limits
      (closingEvents d.created ("azure_" ++ d.requestId) d.pendingUsage)
    return ({ d with created := true, completed := true, pendingUsage := none }, events)

/-- `AzureAdapter::decode_response`. -/
def decodeAzureResponse (F : FloatReader) (requestId : String) (body : Bytes)
    (limits : UpstreamLimits) :
    Result Events := do
  requireThat (!(body.length > limits.maxResponseBodyBytes))
  let value ← readSlice F body
  let (decoder, events) ← (AzureResponseDecoder.new requestId limits).decodeNonStream value
  let emitted ← accountStreamEvents 0 events.length limits
  let (_, completed) ← decoder.finish
  let _ ← accountStreamEvents emitted completed.length limits
  return events ++ completed

/-! ## Gemini -/

/-- `GeminiUsageWire`, as the usage `gemini_usage` makes of it. -/
def readGeminiUsage : Json → Option Usage
  | .obj fields => do
    let promptTokenCount ← presentField "promptTokenCount" asWord fields
    let candidatesTokenCount ← presentField "candidatesTokenCount" asWord fields
    let cachedContentTokenCount ← presentField "cachedContentTokenCount" asWord fields
    let thoughtsTokenCount ← presentField "thoughtsTokenCount" asWord fields
    return {
      inputTokens := promptTokenCount.getD 0
      outputTokens := candidatesTokenCount.getD 0
      cachedInputTokens := cachedContentTokenCount
      reasoningTokens := thoughtsTokenCount
      extensions := Read.rest ["promptTokenCount", "candidatesTokenCount",
        "cachedContentTokenCount", "thoughtsTokenCount"] fields }
  | _ => none

/-- `gemini_usage`. -/
def geminiUsage (value : Json) (limits : UpstreamLimits) : Result Usage := do
  let usage ← orInvalid (readGeminiUsage value)
  requireThat (!tooMany usage.extensions limits)
  return usage

structure GeminiResponseDecoder where
  requestId : String
  limits : UpstreamLimits
  created : Bool
  completed : Bool
  nextItem : Nat
  pendingUsage : Option Usage
  sawTerminal : Bool
deriving DecidableEq

namespace GeminiResponseDecoder

abbrev Reading := GeminiResponseDecoder × Events

def new (requestId : String) (limits : UpstreamLimits) : GeminiResponseDecoder :=
  { requestId, limits, created := false, completed := false, nextItem := 0, pendingUsage := none,
    sawTerminal := false }

variable (r : Reading)

/-- The first arm of `decode_part`: a text. -/
def decodeText (part : Json) : Result Reading :=
  match stringAt part "text" with
  | some text => do
    let (d, events) := r
    requireThat (!(text.utf8ByteSize > d.limits.maxTextDeltaBytes))
    let thought := (part.get? "thought").bind asBool = some true
    let events ← pushEvent events (textEvent (numbered "gemini_item_" d.nextItem) text thought)
      d.limits
    return ({ d with nextItem := d.nextItem + 1 }, events)
  | none => .ok r

/-- The second arm of `decode_part`: a function call. -/
def decodeCall (part : Json) : Result Reading :=
  match part.get? "functionCall" with
  | some call => do
    let (d, events) := r
    let name ← requiredString call "name"
    validateAsciiIdentifier name d.limits.maxIdentifierBytes
    let callId := (stringAt call "id").getD (numbered "call_gemini_" d.nextItem)
    validateAsciiIdentifier callId d.limits.maxIdentifierBytes
    let delta := argumentsText call "args"
    requireThat (!(delta.utf8ByteSize > d.limits.maxToolArgumentBytes))
    let events ← pushEvent events
      (.toolCallDelta (numbered "gemini_tool_" d.nextItem) callId name delta) d.limits
    return ({ d with nextItem := d.nextItem + 1 }, events)
  | none => .ok r

/-- `GeminiResponseDecoder::decode_part`. -/
def decodePart (part : Json) : Result Reading := do
  let r ← decodeText r part
  decodeCall r part

/-- Whether a candidate says why it ended; a reason must be a text and not be empty. -/
def candidateEnds (candidate : Json) : Result Bool :=
  match candidate.get? "finishReason" with
  | some reason => do
    let _ ← orInvalid (reason.asStr.filter fun text => !text.isEmpty)
    return true
  | none => .ok false

/-- The parts of a candidate, if it has any. -/
def decodeParts (candidate : Json) : Result Reading :=
  match (candidate.get? "content").bind (·.get? "parts") with
  | some parts => do
    let parts ← boundedArray parts r.1.limits
    parts.foldlM decodePart r
  | none => .ok r

/-- One candidate of `decode_value`; the flag says whether one so far has ended. -/
def decodeCandidate (r : Reading × Bool) (candidate : Json) : Result (Reading × Bool) := do
  let ends ← candidateEnds candidate
  let reading ← decodeParts r.1 candidate
  return (reading, r.2 || ends)

/-- The candidates of `decode_value`, if there are any. -/
def decodeCandidates (root : Json) : Result Reading :=
  match root.get? "candidates" with
  | some candidates => do
    let candidates ← boundedArray candidates r.1.limits
    let ((d, events), sawTerminal) ← candidates.foldlM decodeCandidate (r, false)
    return ({ d with sawTerminal }, events)
  | none => .ok r

/-- `Created`, before the first document. -/
def ensureCreated (root : Json) : Result Reading :=
  let (d, events) := r
  if d.created then .ok (d, events)
  else do
    let responseId := (stringAt root "responseId").getD ("gemini_" ++ d.requestId)
    validateAsciiIdentifier responseId d.limits.maxIdentifierBytes
    let events ← pushEvent events (.created responseId) d.limits
    return ({ d with created := true }, events)

/-- The usage of a document, if it has any. -/
def takeUsage (root : Json) : Result Reading :=
  match root.get? "usageMetadata" with
  | some usage => do
    let usage ← geminiUsage usage r.1.limits
    return ({ r.1 with pendingUsage := some usage }, r.2)
  | none => .ok r

/-- `GeminiResponseDecoder::decode_value`. -/
def decodeValue (d : GeminiResponseDecoder) (root : Json) : Result Reading := do
  requireThat (!d.sawTerminal)
  requireThat root.isObject
  Outcome.rejectIf (root.get? "error").isSome (.upstreamResponse 502 "gemini upstream error")
  let r ← ensureCreated (d, []) root
  let r ← takeUsage r root
  decodeCandidates r root

/-- `GeminiResponseDecoder::finish`. -/
def finish (d : GeminiResponseDecoder) : Result Reading :=
  if d.completed then .ok (d, [])
  else do
    let events ← pushEvents d.limits
      (closingEvents d.created ("gemini_" ++ d.requestId) d.pendingUsage)
    return ({ d with created := true, completed := true, pendingUsage := none }, events)

end GeminiResponseDecoder

/-- `GeminiAdapter::decode_response`. -/
def decodeGeminiResponse (F : FloatReader) (requestId : String) (body : Bytes)
    (limits : UpstreamLimits) :
    Result Events := do
  requireThat (!(body.length > limits.maxResponseBodyBytes))
  let value ← readSlice F body
  let (decoder, events) ← (GeminiResponseDecoder.new requestId limits).decodeValue value
  let emitted ← accountStreamEvents 0 events.length limits
  let (_, completed) ← decoder.finish
  let _ ← accountStreamEvents emitted completed.length limits
  return events ++ completed

/-! ## The adapter -/

/-- `UpstreamAdapter::decode_response`. The decoders inside the Azure and Gemini adapters are made
    with constants that pass their checks, so only the base URL can be refused. -/
def UpstreamAdapter.decodeResponse (F : FloatReader) (adapter : UpstreamAdapter)
    (requestId : String) (body : Bytes) : Result Events := do
  requireThat (!(body.length > adapter.limits.maxResponseBodyBytes))
  match adapter.protocol with
  | .openAiResponses => decodeResponsesComplete F requestId body adapter.limits
  | .openAiChat | .azureOpenAi => do
    validateBaseUrl adapter.baseUrl
    decodeAzureResponse F requestId body adapter.limits
  | .anthropic => decodeAnthropicComplete F requestId body adapter.limits
  | .gemini => do
    validateBaseUrl adapter.baseUrl
    decodeGeminiResponse F requestId body adapter.limits

end Wokcore.Protocols.Upstream
