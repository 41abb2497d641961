import Wokcore.Protocols.Upstream.WholeRuns

/-!
# The result of an upstream execution (`wokcore-server/src/data_plane/execute.rs`)

A decoded response is handed to the server as an `UpstreamExecutionResponse`, which only takes an
event list of the shape the client codecs can encode. `CanonicalEvent.toJson` is the derived
serialization of an event, whose size is what bounds a list.
-/

set_option autoImplicit false

namespace Wokcore.Server.DataPlane

open Lib Protocols Protocols.Upstream

/-! ## Events as JSON -/

/-- `Serialize` of `ErrorKind`, whose members are flattened into those of the error. -/
def errorKindFields : ErrorKind → Members
  | .invalidRequest => [("type", .str "invalid_request")]
  | .modelNotFound => [("type", .str "model_not_found")]
  | .unsupportedCapability => [("type", .str "unsupported_capability")]
  | .noExecutor => [("type", .str "no_executor")]
  | .upstreamAuth => [("type", .str "upstream_auth")]
  | .rateLimited retryAfterSeconds => [("type", .str "rate_limited"),
      ("retry_after_seconds", (retryAfterSeconds.map Json.ofNat).getD .null)]
  | .upstreamError status => [("type", .str "upstream_error"), ("status", .ofNat status)]
  | .upstreamUnavailable => [("type", .str "upstream_unavailable")]
  | .internalError => [("type", .str "internal_error")]

/-- `Serialize` of `GatewayError`; what it knows of the cause is not written. -/
def errorToJson (error : GatewayError) : Json :=
  .obj (errorKindFields error.kind ++ (error.diagnostic.map fun _ =>
    ("diagnostic", Json.str "[redacted]")).toList)

/-- `Serialize` of `Usage`. -/
def usageToJson (usage : Usage) : Json :=
  .obj [("input_tokens", .ofWord usage.inputTokens), ("output_tokens", .ofWord usage.outputTokens),
    ("cached_input_tokens", (usage.cachedInputTokens.map Json.ofWord).getD .null),
    ("reasoning_tokens", (usage.reasoningTokens.map Json.ofWord).getD .null),
    ("extensions", (Value.object usage.extensions).tree)]

/-- `Serialize` of `CanonicalEvent`: a tag and its content. -/
def eventToJson : CanonicalEvent → Json
  | .created responseId =>
    .obj [("type", .str "created"), ("data", .obj [("response_id", .str responseId)])]
  | .outputTextDelta itemId delta => .obj [("type", .str "output_text_delta"),
      ("data", .obj [("item_id", .str itemId), ("delta", .str delta)])]
  | .reasoningDelta itemId delta => .obj [("type", .str "reasoning_delta"),
      ("data", .obj [("item_id", .str itemId), ("delta", .str delta)])]
  | .toolCallDelta itemId callId name delta => .obj [("type", .str "tool_call_delta"),
      ("data", .obj [("item_id", .str itemId), ("call_id", .str callId), ("name", .str name),
        ("delta", .str delta)])]
  | .usage usage => .obj [("type", .str "usage"), ("data", usageToJson usage)]
  | .completed => .obj [("type", .str "completed")]
  | .failed error => .obj [("type", .str "failed"), ("data", errorToJson error)]

/-- `json_fits`. The counter of the source stops at the first byte past the limit. -/
def jsonFits (value : Json) (limit : Nat) : Bool := value.toVec.length ≤ limit

/-! ## Responses -/

def maxUpstreamEvents : Nat := 4096

def jsonBodyLimit : Nat := 16 * 1024 * 1024

inductive UpstreamFinishReason where
  | stop
  | length
  | toolCalls
  | contentFilter
  | functionCall
  | pauseTurn
  | refusal
  | modelContextWindowExceeded
deriving DecidableEq

inductive UpstreamExecutionOutput where
  | events (events : Events)
  | tokenCount (count : UInt64)
deriving DecidableEq

/-- `UpstreamExecutionResponse`, without the id the upstream gave the request, which is only passed
    on. -/
structure UpstreamExecutionResponse where
  output : UpstreamExecutionOutput
  createdAt : UInt64
  finishReason : UpstreamFinishReason
  stopSequence : Option String
  thinkingSignatures : EntryMap String
deriving DecidableEq

inductive InvalidUpstreamExecutionResponse where
  | invalid
deriving DecidableEq

def isCreated : CanonicalEvent → Bool
  | .created _ => true
  | _ => false

def isUsage : CanonicalEvent → Bool
  | .usage _ => true
  | _ => false

def isCompleted : CanonicalEvent → Bool
  | .completed => true
  | _ => false

def isFailed : CanonicalEvent → Bool
  | .failed _ => true
  | _ => false

/-- `UpstreamExecutionResponse::events`. -/
def UpstreamExecutionResponse.events (events : Events) (createdAt : UInt64) :
    Except InvalidUpstreamExecutionResponse UpstreamExecutionResponse :=
  if events.length > maxUpstreamEvents || !(events.head?.any isCreated) ||
    !(events.getLast?.any isCompleted)
      || events.countP isCreated != 1 || events.countP isUsage != 1 ||
        events.countP isCompleted != 1
      || events.any isFailed || !jsonFits (.arr (events.map eventToJson)) jsonBodyLimit then
    .error .invalid
  else .ok {
    output := .events events
    createdAt := createdAt
    finishReason := .stop
    stopSequence := none
    thinkingSignatures := .empty }

/-! ## Lists that are taken -/

variable {deltas : Events}

theorem countP_deltas {p : CanonicalEvent → Bool} (hp : ∀ e, e.isDelta = true → p e = false)
    (h : AllDeltas deltas) :
    deltas.countP p = 0 := by
  rw [List.countP_eq_zero]
  intro e he
  rw [hp e (h e he)]
  exact Bool.false_ne_true

theorem isDelta_only {e : CanonicalEvent} (h : e.isDelta = true) :
    isCreated e = false ∧ isUsage e = false ∧ isCompleted e = false ∧ isFailed e = false := by
  cases e with
  | outputTextDelta | reasoningDelta | toolCallDelta => exact ⟨rfl, rfl, rfl, rfl⟩
  | _ => cases h

/-- A response within the bounds is taken exactly if it has a usage. -/
theorem events_responseEvents {id : String} {usage : Option Usage} (createdAt : UInt64)
    (hdeltas : AllDeltas deltas) (hlength : (responseEvents id deltas usage).length ≤
    maxUpstreamEvents)
    (hfits : jsonFits (.arr ((responseEvents id deltas usage).map eventToJson)) jsonBodyLimit =
    true) :
    (∃ r, UpstreamExecutionResponse.events (responseEvents id deltas usage) createdAt = .ok r) ↔
      usage.isSome = true := by
  have hcreated := countP_deltas (fun e he => (isDelta_only he).1) hdeltas
  have husage := countP_deltas (fun e he => (isDelta_only he).2.1) hdeltas
  have hcompleted := countP_deltas (fun e he => (isDelta_only he).2.2.1) hdeltas
  have hfailed : deltas.any isFailed = false := by
    rw [List.any_eq_false]
    intro e he
    rw [(isDelta_only (hdeltas e he)).2.2.2]
    exact Bool.false_ne_true
  have hlast : (responseEvents id deltas usage).getLast? = some .completed := by
    rw [responseEvents, ← List.cons_append, List.getLast?_concat]
  unfold UpstreamExecutionResponse.events
  rw [hfits, hlast]
  cases usage with
  | none => simp [responseEvents, husage, isUsage]
  | some usage =>
    have hone : (responseEvents id deltas (some usage)).countP isCreated = 1 := by
      simp [responseEvents, List.countP_cons, hcreated, isCreated]
    have hcounted : (responseEvents id deltas (some usage)).countP isUsage = 1 := by
      simp [responseEvents, List.countP_cons, husage, isUsage]
    have hended : (responseEvents id deltas (some usage)).countP isCompleted = 1 := by
      simp [responseEvents, List.countP_cons, hcompleted, isCompleted]
    have hnone : (responseEvents id deltas (some usage)).any isFailed = false := by
      simp [responseEvents, hfailed, isFailed]
    rw [hone, hcounted, hended, hnone, decide_eq_false (Nat.not_lt.mpr hlength)]
    exact ⟨fun _ => rfl, fun _ => ⟨_, rfl⟩⟩

/-- **Which bodies are taken.** A decoded list within the bounds is taken exactly if the protocol
    always reports a usage or the body has one. -/
theorem events_decodeResponse_iff (F : FloatReader) (adapter : UpstreamAdapter) (requestId : String)
    (body : Bytes) (events : List CanonicalEvent) (createdAt : UInt64)
    (h : adapter.decodeResponse F requestId body = .ok events)
    (hlength : events.length ≤ maxUpstreamEvents)
    (hfits : jsonFits (.arr (events.map eventToJson)) jsonBodyLimit = true) :
    (∃ r, UpstreamExecutionResponse.events events createdAt = .ok r) ↔
      reportsUsage F adapter.protocol body = true := by
  obtain ⟨id, deltas, usage, hdeltas, rfl, husage⟩ := decodeResponse_events h
  rw [← husage]
  exact events_responseEvents createdAt hdeltas hlength hfits

/-- A body of OpenAI Chat with a usage. -/
def countedBody : Bytes :=
    encodeUtf8 "\x7b\"id\":\"r\",\"choices\":[],\"usage\":\x7b\x7d\x7d".toList

theorem events_decodeResponse_countedBody :
    let events := [.created "r", .usage emptyUsage, .completed]
    (plainAdapter .openAiChat).decodeResponse exactFloats "q" countedBody = .ok events ∧
      ∃ r, UpstreamExecutionResponse.events events 0 = .ok r := by
  intro events
  have hdecode : (plainAdapter .openAiChat).decodeResponse exactFloats "q" countedBody =
      .ok events := by
    decide +kernel
  exact ⟨hdecode, (events_decodeResponse_iff exactFloats _ "q" _ _ 0 hdecode (by decide)
    (by decide +kernel)).mpr (by decide +kernel)⟩

/-- The same body without a usage is decoded, and then refused. -/
theorem events_without_usage :
    let body := encodeUtf8 "\x7b\"id\":\"r\",\"choices\":[]\x7d".toList
    let events := [.created "r", .completed]
    (plainAdapter .openAiChat).decodeResponse exactFloats "q" body = .ok events ∧
      events.length ≤ maxUpstreamEvents ∧
      jsonFits (.arr (events.map eventToJson)) jsonBodyLimit = true ∧
      UpstreamExecutionResponse.events events 0 = .error .invalid := by
  decide +kernel

end Wokcore.Server.DataPlane
