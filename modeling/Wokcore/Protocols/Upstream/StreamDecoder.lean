import Wokcore.Protocols.Stream.Sse
import Wokcore.Protocols.Upstream.Documents

/-!
# The upstream stream decoders (`upstream/mod.rs`, `outbound/azure.rs`, `outbound/gemini.rs`)

Four decoders read the five upstream protocols. Each has an `SseDecoder` in front, counts the bytes
it has received and the events it has given out, and keeps what it knows of the response;
`StreamDecoder` is that common record, and what is known of the response is its parameter.

A push that fails leaves a decoder no caller uses again (`pump_stream` reports the failure and
stops), so a failing push has no next state here and the `failed` flags of the Azure and Gemini
decoders, which only make later calls fail, have no counterpart.
-/

set_option autoImplicit false

namespace Wokcore.Protocols.Upstream

open Lib Protocols.Stream

/-! ## What the decoders share -/

structure StreamDecoder (σ : Type) where
  sse : SseDecoder
  limits : UpstreamLimits
  receivedBytes : Nat
  emittedEvents : Nat
  response : σ

namespace StreamDecoder

variable {σ : Type}

def fresh (limits : UpstreamLimits) (response : σ) : StreamDecoder σ where
  sse := .withLimits limits.maxStreamFrameBytes limits.maxEvents
  limits := limits
  receivedBytes := 0
  emittedEvents := 0
  response := response

/-- How every `push` starts: the bytes are counted and cut into frames. -/
def receive (d : StreamDecoder σ) (chunk : Bytes) : Result (StreamDecoder σ × List SseFrame) := do
  let receivedBytes := satAdd u64Max d.receivedBytes chunk.length
  requireThat (!(receivedBytes > d.limits.maxResponseBodyBytes))
  match d.sse.push chunk with
  | (sse, .ok frames) => .ok ({ d with sse, receivedBytes }, frames)
  | (_, .error _) => .error .invalidRequest

/-- How every `finish` starts. -/
def endSse (d : StreamDecoder σ) : Result (StreamDecoder σ) :=
  match d.sse.finish with
  | (sse, .ok _) => .ok { d with sse }
  | (_, .error _) => .error .invalidRequest

/-- The end of a `push` of `upstream/mod.rs` (`ResponsesStreamDecoder::account`). -/
def account (d : StreamDecoder σ) (added : Nat) : Result (StreamDecoder σ) := do
  let emittedEvents := satAdd u64Max d.emittedEvents added
  requireThat (!(emittedEvents > d.limits.maxEvents))
  return { d with emittedEvents }

/-- `push` as `upstream/mod.rs` has it twice: the frames are decoded into one list of events, which
    is counted at the end. -/
def pushCounted (closed : σ → Bool)
    (decodeFrame : UpstreamLimits → σ × Events → SseFrame → Result (σ × Events))
    (d : StreamDecoder σ) (chunk : Bytes) : Result (StreamDecoder σ × Events) := do
  requireThat (!closed d.response)
  let (d, frames) ← d.receive chunk
  let (response, events) ← frames.foldlM (decodeFrame d.limits) (d.response, [])
  let d ← account { d with response } events.length
  return (d, events)

/-- `push` as `azure.rs` and `gemini.rs` have it: the events of each frame are counted with the
    frame. -/
def pushEach (closed : σ → Bool) (decodeFrame : UpstreamLimits → (σ × Nat) × Events → SseFrame →
      Result ((σ × Nat) × Events))
    (d : StreamDecoder σ) (chunk : Bytes) : Result (StreamDecoder σ × Events) := do
  requireThat (!closed d.response)
  let (d, frames) ← d.receive chunk
  let ((response, emittedEvents), events) ←
    frames.foldlM (decodeFrame d.limits) ((d.response, d.emittedEvents), [])
  return ({ d with response, emittedEvents }, events)

end StreamDecoder

/-! ## Responses -/

/-- The events `ResponsesStreamDecoder::decode_event` tells apart. -/
inductive ResponsesKind where
  | created
  | itemAdded
  | textDelta
  | reasoningDelta
  | argumentsDelta
  | completed
  | failed
  | other
deriving DecidableEq

def ResponsesKind.ofString (kind : String) : ResponsesKind :=
  if kind = "response.created" then .created
  else if kind = "response.output_item.added" then .itemAdded
  else if kind = "response.output_text.delta" then .textDelta
  else if kind = "response.reasoning_summary_text.delta" ∨
      kind = "response.reasoning_text.delta" then .reasoningDelta
  else if kind = "response.function_call_arguments.delta" then .argumentsDelta
  else if kind = "response.completed" then .completed
  else if kind = "response.failed" ∨ kind = "error" then .failed
  else .other

/-- What `ResponsesStreamDecoder` knows of the response. -/
structure ResponsesStream where
  requestId : String
  created : Bool
  completed : Bool
  tools : EntryMap (String × String)

variable (F : FloatReader) (requestId : String) (limits : UpstreamLimits)

namespace ResponsesStream

def new : ResponsesStream :=
  { requestId, created := false, completed := false, tools := .empty }

/-- The arm for an added item: a function call is remembered under its item. -/
def addItem (s : ResponsesStream) (item : Option Json) : Result ResponsesStream :=
  match item with
  | some item =>
    if stringAt item "type" = some "function_call" then do
      let itemId ← requiredString item "id"
      let callId ← requiredString item "call_id"
      let name ← requiredString item "name"
      return { s with tools := s.tools.insert itemId (callId, name) }
    else .ok s
  | none => .ok s

/-- The arms of `ResponsesStreamDecoder::decode_event`. -/
def decodeKind (s : ResponsesStream) (events : Events) (value : Json) :
    ResponsesKind → Result (ResponsesStream × Events)
  | .created => do
    requireThat (!s.created)
    let responseId := ((value.get? "response").bind fun response => stringAt response "id").getD
      s.requestId
    validateIdentifier responseId limits.maxIdentifierBytes
    return ({ s with created := true }, events ++ [.created responseId])
  | .itemAdded => do
    let s ← s.addItem (value.get? "item")
    return (s, events)
  | .textDelta => do
    requireThat s.created
    let itemId ← requiredString value "item_id"
    let delta ← requiredString value "delta"
    let events ← pushText events itemId delta false limits
    return (s, events)
  | .reasoningDelta => do
    requireThat s.created
    let itemId ← requiredString value "item_id"
    let delta ← requiredString value "delta"
    let events ← pushText events itemId delta true limits
    return (s, events)
  | .argumentsDelta => do
    requireThat s.created
    let itemId ← requiredString value "item_id"
    let (callId, name) ← orInvalid (s.tools.get? itemId)
    let delta ← requiredString value "delta"
    let events ← pushTool events itemId callId name delta limits
    return (s, events)
  | .completed => do
    requireThat s.created
    let usage ← openaiResponsesUsage ((value.get? "response").bind (·.get? "usage")) limits
    return ({ s with completed := true }, events ++ [.usage usage, .completed])
  | .failed => .error (.upstreamResponse 502 "responses stream failed")
  | .other => .ok (s, events)

/-- `ResponsesStreamDecoder::decode_event`. -/
def decodeEvent (r : ResponsesStream × Events) (value : Json) :
    Result (ResponsesStream × Events) := do
  let kind ← requiredString value "type"
  r.1.decodeKind limits r.2 value (.ofString kind)

/-- One turn of the loop of `ResponsesStreamDecoder::push`. -/
def decodeFrame (r : ResponsesStream × Events)
    (frame : SseFrame) : Result (ResponsesStream × Events) := do
  let value ← readText F frame.data
  decodeEvent limits r value

end ResponsesStream

abbrev ResponsesStreamDecoder := StreamDecoder ResponsesStream

namespace ResponsesStreamDecoder

def new : ResponsesStreamDecoder :=
  .fresh limits (.new requestId)

/-- `ResponsesStreamDecoder::push`. -/
def push : ResponsesStreamDecoder → Bytes →
    Result (ResponsesStreamDecoder × Events) :=
  StreamDecoder.pushCounted ResponsesStream.completed (ResponsesStream.decodeFrame F)

/-- `ResponsesStreamDecoder::finish`. -/
def finish (d : ResponsesStreamDecoder) : Result (ResponsesStreamDecoder × Events) := do
  let d ← d.endSse
  requireThat d.response.completed
  return (d, [])

end ResponsesStreamDecoder

/-! ## Anthropic -/

/-- The events `AnthropicStreamDecoder::decode_event` tells apart. -/
inductive AnthropicKind where
  | messageStart
  | blockStart
  | blockDelta
  | messageDelta
  | messageStop
  | error
  | other
deriving DecidableEq

def AnthropicKind.ofString (kind : String) : AnthropicKind :=
  if kind = "message_start" then .messageStart
  else if kind = "content_block_start" then .blockStart
  else if kind = "content_block_delta" then .blockDelta
  else if kind = "message_delta" then .messageDelta
  else if kind = "message_stop" then .messageStop
  else if kind = "error" then .error
  else .other

inductive AnthropicBlock where
  | text (itemId : String)
  | thinking (itemId : String)
  | tool (itemId callId name : String)
deriving DecidableEq

/-- What `AnthropicStreamDecoder` knows of the response. -/
structure AnthropicStream where
  requestId : String
  created : Bool
  completed : Bool
  inputTokens : UInt64
  outputTokens : UInt64
  blocks : List (Nat × AnthropicBlock)

/-- `required_index`. -/
def requiredIndex (value : Json) (maximum : Nat) : Result Nat := do
  let index ← orInvalid ((value.get? "index").bind Json.asU64)
  requireThat (!(index ≥ maximum))
  return index

namespace AnthropicStream

def new : AnthropicStream :=
  { requestId, created := false, completed := false, inputTokens := 0, outputTokens := 0,
    blocks := [] }

/-- The usage of `message_start`, if there is any. -/
def startUsage (s : AnthropicStream) (usage : Option Json) : Result AnthropicStream :=
  match usage with
  | some usage => do
    let inputTokens ← optionalU64 usage "input_tokens"
    let outputTokens ← optionalU64 usage "output_tokens"
    return { s with inputTokens := inputTokens.getD 0, outputTokens := outputTokens.getD 0 }
  | none => .ok s

/-- The usage of `message_delta`, if there is any. -/
def deltaUsage (s : AnthropicStream) (usage : Option Json) : Result AnthropicStream :=
  match usage with
  | some usage => do
    let outputTokens ← optionalU64 usage "output_tokens"
    return { s with outputTokens := outputTokens.getD s.outputTokens }
  | none => .ok s

/-- The block a `content_block_start` announces; one of an unknown kind is passed over. -/
def readBlock (itemId : String) (block : Json) : BlockKind → Result (Option AnthropicBlock)
  | .text => .ok (some (.text itemId))
  | .thinking => .ok (some (.thinking itemId))
  | .toolUse => do
    let callId ← requiredString block "id"
    let name ← requiredString block "name"
    return some (.tool itemId callId name)
  | .other => .ok none

/-- `self.blocks.insert(index, block)`, which must be new. -/
def insertBlock (s : AnthropicStream) (index : Nat) : Option AnthropicBlock → Result AnthropicStream
  | some block => do
    requireThat (s.blocks.lookup index).isNone
    return { s with blocks := (index, block) :: s.blocks }
  | none => .ok s

/-- The kinds of deltas. -/
inductive DeltaKind where
  | text
  | thinking
  | inputJson
  | other
deriving DecidableEq

def DeltaKind.ofString (kind : String) : DeltaKind :=
  if kind = "text_delta" then .text
  else if kind = "thinking_delta" then .thinking
  else if kind = "input_json_delta" then .inputJson
  else .other

/-- The arms of `content_block_delta`. -/
def decodeDelta (events : Events) (delta : Json) : AnthropicBlock → DeltaKind → Result Events
  | .text itemId, .text => do
    let text ← requiredString delta "text"
    pushText events itemId text false limits
  | .thinking itemId, .thinking => do
    let thinking ← requiredString delta "thinking"
    pushText events itemId thinking true limits
  | .tool itemId callId name, .inputJson => do
    let partialJson ← requiredString delta "partial_json"
    pushTool events itemId callId name partialJson limits
  | _, _ => .error .invalidRequest

/-- The arms of `AnthropicStreamDecoder::decode_event`. -/
def decodeKind (s : AnthropicStream) (events : Events) (value : Json) :
    AnthropicKind → Result (AnthropicStream × Events)
  | .messageStart => do
    requireThat (!s.created)
    let message ← orInvalid (value.get? "message")
    let responseId := (stringAt message "id").getD s.requestId
    validateIdentifier responseId limits.maxIdentifierBytes
    let s ← s.startUsage (message.get? "usage")
    return ({ s with created := true }, events ++ [.created responseId])
  | .blockStart => do
    requireThat s.created
    let index ← requiredIndex value limits.maxCollectionItems
    let block ← orInvalid (value.get? "content_block")
    let kind ← requiredString block "type"
    let block ← readBlock (numbered "anthropic_item_" index) block (.ofString kind)
    let s ← s.insertBlock index block
    return (s, events)
  | .blockDelta => do
    requireThat s.created
    let index ← requiredIndex value limits.maxCollectionItems
    let delta ← orInvalid (value.get? "delta")
    let block ← orInvalid (s.blocks.lookup index)
    let kind ← requiredString delta "type"
    let events ← decodeDelta limits events delta block (.ofString kind)
    return (s, events)
  | .messageDelta => do
    requireThat s.created
    let s ← s.deltaUsage (value.get? "usage")
    return (s, events)
  | .messageStop => do
    requireThat s.created
    return ({ s with completed := true },
      events ++ [.usage ⟨s.inputTokens, s.outputTokens, none, none, .empty⟩, .completed])
  | .error => .error (.upstreamResponse 502 "anthropic stream failed")
  | .other => .ok (s, events)

/-- `AnthropicStreamDecoder::decode_event`. -/
def decodeEvent (r : AnthropicStream × Events) (value : Json) :
    Result (AnthropicStream × Events) := do
  let kind ← requiredString value "type"
  r.1.decodeKind limits r.2 value (.ofString kind)

/-- One turn of the loop of `AnthropicStreamDecoder::push`. -/
def decodeFrame (r : AnthropicStream × Events)
    (frame : SseFrame) : Result (AnthropicStream × Events) := do
  let value ← readText F frame.data
  decodeEvent limits r value

end AnthropicStream

abbrev AnthropicStreamDecoder := StreamDecoder AnthropicStream

namespace AnthropicStreamDecoder

def new : AnthropicStreamDecoder :=
  .fresh limits (.new requestId)

/-- `AnthropicStreamDecoder::push`. -/
def push : AnthropicStreamDecoder → Bytes →
    Result (AnthropicStreamDecoder × Events) :=
  StreamDecoder.pushCounted AnthropicStream.completed (AnthropicStream.decodeFrame F)

/-- `AnthropicStreamDecoder::finish`. -/
def finish (d : AnthropicStreamDecoder) : Result (AnthropicStreamDecoder × Events) := do
  let d ← d.endSse
  requireThat d.response.completed
  return (d, [])

end AnthropicStreamDecoder

/-! ## Azure and OpenAI Chat -/

/-- `char::is_whitespace`. -/
def isWhitespace (c : Char) : Bool :=
  let n := c.toNat
  (9 ≤ n && n ≤ 13) || n == 0x20 || n == 0x85 || n == 0xa0 || n == 0x1680 ||
    (0x2000 ≤ n && n ≤ 0x200a)
    || n == 0x2028 || n == 0x2029 || n == 0x202f || n == 0x205f || n == 0x3000

/-- `str::trim`. -/
def trim (text : List Char) : List Char :=
  ((text.dropWhile isWhitespace).reverse.dropWhile isWhitespace).reverse

def isDone (frame : SseFrame) : Bool := trim frame.data.toList == "[DONE]".toList

/-- What `AzureStreamDecoder` knows of the response. -/
structure AzureStream where
  decoder : AzureResponseDecoder
  finished : Bool
  sawDone : Bool

namespace AzureStream

/-- The check at the start of `AzureStreamDecoder::push`. -/
def closed (s : AzureStream) : Bool := s.finished || s.sawDone

/-- One turn of the loop of `AzureStreamDecoder::push`, with the count of events. -/
def decodeFrame (r : (AzureStream × Nat) × Events)
    (frame : SseFrame) : Result ((AzureStream × Nat) × Events) :=
  let ((s, emittedEvents), events) := r
  if s.sawDone then .error .invalidRequest
  else if isDone frame then .ok (({ s with sawDone := true }, emittedEvents), events)
  else do
    let value ← readText F frame.data
    let (decoder, decoded) ← s.decoder.decodeStreamChunk value
    let emittedEvents ← accountStreamEvents emittedEvents decoded.length limits
    return (({ s with decoder }, emittedEvents), events ++ decoded)

end AzureStream

abbrev AzureStreamDecoder := StreamDecoder AzureStream

namespace AzureStreamDecoder

def new : AzureStreamDecoder :=
  .fresh limits { decoder := .new requestId limits, finished := false, sawDone := false }

/-- `AzureStreamDecoder::push`. -/
def push : AzureStreamDecoder → Bytes →
    Result (AzureStreamDecoder × Events) :=
  StreamDecoder.pushEach AzureStream.closed (AzureStream.decodeFrame F)

/-- `AzureStreamDecoder::finish`. -/
def finish (d : AzureStreamDecoder) : Result (AzureStreamDecoder × Events) := do
  requireThat (!d.response.finished)
  let d ← d.endSse
  requireThat d.response.sawDone
  let (decoder, events) ← d.response.decoder.finish
  let emittedEvents ← accountStreamEvents d.emittedEvents events.length d.limits
  return ({ d with emittedEvents, response := { d.response with decoder, finished := true } },
    events)

end AzureStreamDecoder

/-! ## Gemini -/

/-- What `GeminiStreamDecoder` knows of the response. -/
structure GeminiStream where
  decoder : GeminiResponseDecoder
  finished : Bool

namespace GeminiStream

/-- The check at the start of `GeminiStreamDecoder::push`. -/
def closed (s : GeminiStream) : Bool := s.finished || s.decoder.sawTerminal

/-- One turn of the loop of `GeminiStreamDecoder::push`, with the count of events. -/
def decodeFrame (r : (GeminiStream × Nat) × Events)
    (frame : SseFrame) : Result ((GeminiStream × Nat) × Events) := do
  let ((s, emittedEvents), events) := r
  let value ← readText F frame.data
  let (decoder, decoded) ← s.decoder.decodeValue value
  let emittedEvents ← accountStreamEvents emittedEvents decoded.length limits
  return (({ s with decoder }, emittedEvents), events ++ decoded)

end GeminiStream

abbrev GeminiStreamDecoder := StreamDecoder GeminiStream

namespace GeminiStreamDecoder

def new : GeminiStreamDecoder :=
  .fresh limits { decoder := .new requestId limits, finished := false }

/-- `GeminiStreamDecoder::push`. -/
def push : GeminiStreamDecoder → Bytes →
    Result (GeminiStreamDecoder × Events) :=
  StreamDecoder.pushEach GeminiStream.closed (GeminiStream.decodeFrame F)

/-- `GeminiStreamDecoder::finish`. -/
def finish (d : GeminiStreamDecoder) : Result (GeminiStreamDecoder × Events) := do
  requireThat (!d.response.finished)
  let d ← d.endSse
  requireThat d.response.decoder.sawTerminal
  let (decoder, events) ← d.response.decoder.finish
  let emittedEvents ← accountStreamEvents d.emittedEvents events.length d.limits
  return ({ d with emittedEvents, response := { d.response with decoder, finished := true } },
    events)

end GeminiStreamDecoder

/-! ## One decoder for five protocols -/

/-- `UpstreamStreamDecoder`, with its `StreamDecoderInner`. -/
inductive UpstreamStreamDecoder where
  | responses (decoder : ResponsesStreamDecoder)
  | openAiChat (decoder : AzureStreamDecoder)
  | anthropic (decoder : AnthropicStreamDecoder)
  | gemini (decoder : GeminiStreamDecoder)
  | azure (decoder : AzureStreamDecoder)

/-- `UpstreamAdapter::stream_decoder`. -/
def UpstreamAdapter.streamDecoder (adapter : UpstreamAdapter) (requestId : String) :
    UpstreamStreamDecoder :=
  match adapter.protocol with
  | .openAiResponses => .responses (.new requestId adapter.limits)
  | .openAiChat => .openAiChat (.new requestId adapter.limits)
  | .anthropic => .anthropic (.new requestId adapter.limits)
  | .gemini => .gemini (.new requestId adapter.limits)
  | .azureOpenAi => .azure (.new requestId adapter.limits)

namespace UpstreamStreamDecoder

/-- What a call on a decoder returns, for the decoder it is part of. -/
def wrap {δ : Type} (make : δ → UpstreamStreamDecoder) (r : Result (δ × Events)) :
    Result (UpstreamStreamDecoder × Events) :=
  r.map fun q => (make q.1, q.2)

/-- `UpstreamStreamDecoder::push`. -/
def push (d : UpstreamStreamDecoder) (chunk : Bytes) : Result (UpstreamStreamDecoder × Events) :=
  match d with
  | .responses decoder => wrap .responses (ResponsesStreamDecoder.push F decoder chunk)
  | .openAiChat decoder => wrap .openAiChat (AzureStreamDecoder.push F decoder chunk)
  | .anthropic decoder => wrap .anthropic (AnthropicStreamDecoder.push F decoder chunk)
  | .gemini decoder => wrap .gemini (GeminiStreamDecoder.push F decoder chunk)
  | .azure decoder => wrap .azure (AzureStreamDecoder.push F decoder chunk)

/-- `UpstreamStreamDecoder::finish`. -/
def finish (d : UpstreamStreamDecoder) : Result (UpstreamStreamDecoder × Events) :=
  match d with
  | .responses decoder => wrap .responses (ResponsesStreamDecoder.finish decoder)
  | .openAiChat decoder => wrap .openAiChat (AzureStreamDecoder.finish decoder)
  | .anthropic decoder => wrap .anthropic (AnthropicStreamDecoder.finish decoder)
  | .gemini decoder => wrap .gemini (GeminiStreamDecoder.finish decoder)
  | .azure decoder => wrap .azure (AzureStreamDecoder.finish decoder)

/-- All pushes of a stream and the `finish` after them, with the events of all of them. -/
def run (d : UpstreamStreamDecoder) (chunks : List Bytes) : Result Events := do
  let (d, events) ← feed (push F) d chunks
  let (_, last) ← d.finish
  return events ++ last

end UpstreamStreamDecoder

end Wokcore.Protocols.Upstream
