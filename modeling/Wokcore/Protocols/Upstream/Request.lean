import Wokcore.Protocols.Inbound.Common

/-!
# Building upstream requests (`upstream/mod.rs`, `outbound/mod.rs`, `outbound/gemini.rs`)

`UpstreamAdapter::build_request` turns a canonical request into the HTTP request of one of five
upstream protocols. Bodies are written as the source writes them, in the order of its `json!` calls;
the value of such a document sorts the members, as `serde_json` does before it prints them.

Two functions named `validate_identifier` are in use: the one of `upstream/mod.rs` refuses control
characters only, the one of `outbound/mod.rs` takes nothing but letters, digits and `-_.`.
-/

set_option autoImplicit false

namespace Wokcore.Protocols.Upstream

open Lib Wokcore.Core

/-! ## Limits and requests -/

structure UpstreamLimits where
  maxRequestBodyBytes : Nat
  maxResponseBodyBytes : Nat
  maxStreamFrameBytes : Nat
  maxEvents : Nat
  maxCollectionItems : Nat
  maxIdentifierBytes : Nat
  maxTextDeltaBytes : Nat
  maxToolArgumentBytes : Nat
deriving DecidableEq, Repr

def UpstreamLimits.default : UpstreamLimits where
  maxRequestBodyBytes := 16 * 1024 * 1024
  maxResponseBodyBytes := 16 * 1024 * 1024
  maxStreamFrameBytes := 1024 * 1024
  maxEvents := 4096
  maxCollectionItems := 256
  maxIdentifierBytes := 512
  maxTextDeltaBytes := 1024 * 1024
  maxToolArgumentBytes := 1024 * 1024

structure UpstreamRequest where
  url : Url
  headers : EntryMap String
  body : Bytes
  stream : Bool

inductive UpstreamProtocol where
  | openAiResponses
  | openAiChat
  | anthropic
  | gemini
  | azureOpenAi
deriving DecidableEq, Repr

inductive UpstreamOperation where
  | text
  | countTokens
deriving DecidableEq, Repr

structure UpstreamAdapter where
  protocol : UpstreamProtocol
  baseUrl : Url
  limits : UpstreamLimits

/-! ## Checks -/

/-- `validate_identifier` of `upstream/mod.rs`. -/
def validateIdentifier (value : String) (maximumBytes : Nat) : Result Unit :=
  requireThat (!(value.isEmpty || value.utf8ByteSize > maximumBytes || hasControl value
    || value == "." || value == ".."))

/-- `validate_identifier` of `outbound/mod.rs`. -/
def validateAsciiIdentifier (value : String) (limit : Nat) : Result Unit :=
  requireThat (!(value.isEmpty || value == "." || value == ".." || value.utf8ByteSize > limit)
    && value.toList.all fun c => c.isAlphanum || c == '-' || c == '_' || c == '.')

/-- `validate_value_size`. -/
def validateValueSize (value : Value) (maximumBytes : Nat) : Result Unit :=
  requireThat (!(value.tree.toVec.length > maximumBytes))

variable (limits : UpstreamLimits)

/-- `validate_limits`. -/
def validateLimits : Result Unit :=
  requireThat (!(limits.maxRequestBodyBytes == 0 || limits.maxResponseBodyBytes == 0
    || limits.maxStreamFrameBytes == 0 || limits.maxEvents == 0 || limits.maxCollectionItems == 0
    || limits.maxIdentifierBytes == 0 || limits.maxTextDeltaBytes == 0
    || limits.maxToolArgumentBytes == 0))

def isHttpScheme (scheme : String) : Bool := scheme == "http" || scheme == "https"

/-- `normalize_base_url`. -/
def normalizeBaseUrl (U : UrlLibrary) (url : Url) : Result Url := do
  requireThat (!(!isHttpScheme url.scheme || url.host.isNone || !url.username.isEmpty
    || url.password.isSome || url.query.isSome || url.fragment.isSome))
  return if endsWith url.path "/" then url else U.setPath url (url.path ++ "/")

/-- `UpstreamAdapter::new`. -/
def UpstreamAdapter.new (U : UrlLibrary) (protocol : UpstreamProtocol) (baseUrl : Url)
    (limits : UpstreamLimits) : Result UpstreamAdapter := do
  let baseUrl ← normalizeBaseUrl U baseUrl
  validateLimits limits
  return { protocol, baseUrl, limits }

/-- The joined URL stays on the base's host and below its path. -/
def staysWithin (base joined : Url) : Bool :=
  joined.scheme == base.scheme && joined.host == base.host && joined.port == base.port
    && startsWith joined.path base.path

/-- `join_within`. -/
def joinWithin (U : UrlLibrary) (base : Url) (relative : String) : Result Url := do
  requireThat (!(startsWith relative "/"
    || relative.toList.any fun c => c == '?' || c == '#' || c == '\\'))
  let joined ← orInvalid (U.join base relative)
  requireThat (staysWithin base joined)
  return joined

/-- `validate_base_url` of `outbound/mod.rs`. -/
def validateBaseUrl (url : Url) : Result Unit :=
  requireThat (!(!isHttpScheme url.scheme || url.host.isNone || !url.username.isEmpty
    || url.password.isSome || url.query.isSome || url.fragment.isSome || !endsWith url.path "/"))

/-- `checked_join` of `outbound/mod.rs`. -/
def checkedJoin (U : UrlLibrary) (base : Url) (relative : String) : Result Url := do
  validateBaseUrl base
  let joined ← orInvalid (U.join base relative)
  requireThat (staysWithin base joined)
  return joined

/-- One item of the loop of `validate_request`. -/
def validateItem : InputItem → Result Unit
  | .text text => requireThat (!(text.utf8ByteSize > limits.maxTextDeltaBytes))
  | .toolResult callId output => do
    validateIdentifier callId limits.maxIdentifierBytes
    validateValueSize output limits.maxToolArgumentBytes
  | .imageUrl url _ =>
    if isHttpScheme url.scheme || url.scheme == "data" then .ok ()
      else .error .unsupportedCapability

variable (request : CanonicalRequest)

/-- `validate_request`. -/
def validateRequest (limits : UpstreamLimits) : Result Unit := do
  validateIdentifier request.model limits.maxIdentifierBytes
  requireThat (!(request.input.length > limits.maxCollectionItems
    || request.tools.length > limits.maxCollectionItems))
  request.input.forM (validateItem limits)

/-! ## Shared pieces of the bodies -/

/-- `image_detail`. -/
def imageDetail : Option ImageDetail → String
  | none => "auto"
  | some .auto => "auto"
  | some .low => "low"
  | some .high => "high"

/-- An `Option<String>` in a `json!` document. -/
def orNull : Option String → Json
  | some s => .str s
  | none => .null

/-- `anthropic_max_tokens`. -/
def anthropicMaxTokens : Nat :=
  (((request.extensions.get? "max_output_tokens").bind fun v => v.tree.asU64).filter
    (· > 0)).getD 4096

/-- `anthropic_thinking_budget`. -/
def anthropicThinkingBudget : Nat :=
  (((request.reasoning.bind fun r => r.extensions.get? "budget_tokens").bind fun v =>
    v.tree.asU64).filter (· > 0)).getD 1024

/-- The effort of the reasoning options has to be given. -/
def checkEffort : Result Unit :=
  match request.reasoning with
  | none => .ok ()
  | some reasoning =>
    match reasoning.effort with
    | none => .error .unsupportedCapability
    | some effort => validateIdentifier effort 32

/-- The checks every encoder makes on an input item before it writes it. -/
def checkItem : InputItem → Result Unit
  | .toolResult callId output => do
    validateIdentifier callId limits.maxIdentifierBytes
    validateValueSize output limits.maxToolArgumentBytes
  | _ => .ok ()

/-- The checks every encoder makes on a tool before it writes it. -/
def checkTool (tool : ToolDefinition) : Result Unit := do
  validateIdentifier tool.name limits.maxIdentifierBytes
  validateValueSize tool.inputSchema limits.maxRequestBodyBytes

/-- `body["tools"] = ..` where there are tools. -/
def toolsMember (tools : List Json) : Members := if tools.isEmpty then []
    else [("tools", .arr tools)]

/-- A member that is there if the request has a reasoning effort. -/
def effortMember (member : String → String × Json) : Members :=
  ((request.reasoning.bind ReasoningOptions.effort).map member).toList

/-- `expected_accept`. -/
def expectedAccept (stream : Bool) : String :=
  if stream then "text/event-stream" else "application/json"

/-- `json_request`. -/
def jsonRequest (url : Url) (body : Json) (stream : Bool) : Result UpstreamRequest := do
  let bytes := body.norm.toVec
  requireThat (!(bytes.length > limits.maxRequestBodyBytes))
  return {
    url
    headers := .ofList [("accept", expectedAccept stream), ("content-type", "application/json")]
    body := bytes
    stream }

/-! ## Responses -/

/-- One item of `encode_responses_input`. -/
def responsesItem : InputItem → Json
  | .text text => .obj [
      ("role", .str "user"),
      ("content", .arr [.obj [("type", .str "input_text"), ("text", .str text)]])]
  | .imageUrl url detail => .obj [
      ("role", .str "user"),
      ("content", .arr [.obj [
        ("type", .str "input_image"),
        ("image_url", .str url.serialization),
        ("detail", .str (imageDetail detail))]])]
  | .toolResult callId output => .obj [
      ("type", .str "function_call_output"),
      ("call_id", .str callId),
      ("output", output.tree)]

/-- One tool of `encode_responses_tools`. -/
def responsesTool (tool : ToolDefinition) : Json :=
  .obj [
    ("type", .str "function"),
    ("name", .str tool.name),
    ("description", orNull tool.description),
    ("parameters", tool.inputSchema.tree),
    ("strict", .bool false)]

/-- The document `build_openai_responses` sends. -/
def responsesDocument : Json :=
  .obj ([
      ("model", .str request.model),
      ("input", .arr (request.input.map responsesItem)),
      ("stream", .bool request.stream)]
    ++ toolsMember (request.tools.map responsesTool)
    ++ effortMember request fun effort => ("reasoning", .obj [("effort", .str effort)]))

/-! ## Chat -/

/-- One message of `encode_chat_body`; the output of a tool is sent as its JSON text. -/
def chatMessage : InputItem → Json
  | .text text => .obj [("role", .str "user"), ("content", .str text)]
  | .imageUrl url detail => .obj [
      ("role", .str "user"),
      ("content", .arr [.obj [
        ("type", .str "image_url"),
        ("image_url", .obj [
          ("url", .str url.serialization),
          ("detail", .str (imageDetail detail))])]])]
  | .toolResult callId output => .obj [
      ("role", .str "tool"),
      ("tool_call_id", .str callId),
      ("content", .str (.ofList output.tree.print))]

/-- One tool of `encode_chat_body`. -/
def chatTool (tool : ToolDefinition) : Json :=
  .obj [
    ("type", .str "function"),
    ("function", .obj [
      ("name", .str tool.name),
      ("description", orNull tool.description),
      ("parameters", tool.inputSchema.tree)])]

/-- The document of `encode_chat_body`. -/
def chatDocument : Json :=
  .obj ([
      ("model", .str request.model),
      ("messages", .arr (request.input.map chatMessage)),
      ("stream", .bool request.stream)]
    ++ (if request.stream then [("stream_options", .obj [("include_usage", .bool true)])] else [])
    ++ toolsMember (request.tools.map chatTool)
    ++ effortMember request fun effort => ("reasoning_effort", .str effort))

/-- What `encode_responses_input`, `encode_responses_tools` and `encode_reasoning` check between
    them, and `encode_chat_body` as well. -/
def checkContents (limits : UpstreamLimits) : Result Unit := do
  request.input.forM (checkItem limits)
  request.tools.forM (checkTool limits)
  checkEffort request

/-- `encode_chat_body`. -/
def encodeChatBody (limits : UpstreamLimits) : Result Json := do
  checkContents request limits
  return chatDocument request

/-! ## Anthropic -/

/-- One block of `build_anthropic`. -/
def anthropicBlock : InputItem → Json
  | .text text => .obj [("type", .str "text"), ("text", .str text)]
  | .imageUrl url _ => .obj [
      ("type", .str "image"),
      ("source", .obj [("type", .str "url"), ("url", .str url.serialization)])]
  | .toolResult callId output => .obj [
      ("type", .str "tool_result"),
      ("tool_use_id", .str callId),
      ("content", output.tree)]

/-- One tool of `build_anthropic`. -/
def anthropicTool (tool : ToolDefinition) : Json :=
  .obj [
    ("name", .str tool.name),
    ("description", orNull tool.description),
    ("input_schema", tool.inputSchema.tree)]

/-- The document `build_anthropic` sends. -/
def anthropicDocument (operation : UpstreamOperation) : Json :=
  .obj ([
      ("model", .str request.model),
      ("messages", .arr [.obj [
        ("role", .str "user"),
        ("content", .arr (request.input.map anthropicBlock))]])]
    ++ (if operation = .text then [
        ("max_tokens", .ofNat (anthropicMaxTokens request)),
        ("stream", .bool request.stream)]
      else [])
    ++ toolsMember (request.tools.map anthropicTool)
    ++ (if request.reasoning.isSome then [
        ("thinking", .obj [
          ("type", .str "enabled"),
          ("budget_tokens", .ofNat (anthropicThinkingBudget request))])]
      else []))

/-! ## Gemini -/

/-- One part of `GeminiAdapter::build_request`. -/
def encodeGeminiPart (toolNames : Option Json) : InputItem → Result Json
  | .text text => do
    requireThat (!(text.utf8ByteSize > limits.maxTextDeltaBytes))
    return .obj [("text", .str text)]
  | .imageUrl url _ =>
    if isHttpScheme url.scheme || url.scheme == "data" then
      .ok (.obj [("fileData", .obj [("fileUri", .str url.serialization)])])
    else .error .unsupportedCapability
  | .toolResult callId output => do
    validateAsciiIdentifier callId limits.maxIdentifierBytes
    validateValueSize output limits.maxToolArgumentBytes
    match (toolNames.bind fun names => names.get? callId).bind Json.asStr with
    | none => .error .unsupportedCapability
    | some name => do
      validateAsciiIdentifier name limits.maxIdentifierBytes
      return .obj [("functionResponse", .obj [
        ("id", .str callId),
        ("name", .str name),
        ("response", .obj [("result", output.tree)])])]

/-- One declaration of `GeminiAdapter::build_request`. -/
def encodeGeminiTool (tool : ToolDefinition) : Result Json := do
  validateAsciiIdentifier tool.name limits.maxIdentifierBytes
  validateValueSize tool.inputSchema limits.maxRequestBodyBytes
  return .obj [
    ("name", .str tool.name),
    ("description", orNull tool.description),
    ("parameters", tool.inputSchema.tree)]

/-- The generation options of `GeminiAdapter::build_request`. -/
def geminiThinking : Result Members :=
  match request.reasoning with
  | none => .ok []
  | some _ =>
    match request.extensions.get? "gemini.thinking_config" with
    | none => .error .unsupportedCapability
    | some thinking => do
      validateValueSize thinking limits.maxRequestBodyBytes
      return [("generationConfig", .obj [("thinkingConfig", thinking.tree)])]

/-- The body of `GeminiAdapter::build_request`. -/
def geminiBody : Result Json := do
  let toolNames := (request.extensions.get? "gemini.tool_names").bind fun v =>
    if v.tree.isObject then some v.tree else none
  let parts ← request.input.mapM (encodeGeminiPart limits toolNames)
  let declarations ← request.tools.mapM (encodeGeminiTool limits)
  let thinking ← geminiThinking limits request
  return .obj ([("contents", .arr [.obj [("role", .str "user"), ("parts", .arr parts)]])]
    ++ (if request.tools.isEmpty then []
      else [("tools", .arr [.obj [("functionDeclarations", .arr declarations)]])])
    ++ thinking)

/-- The URL of `GeminiAdapter::build_request`. -/
def geminiUrl (U : UrlLibrary) (base : Url) (request : CanonicalRequest) : Result Url := do
  let method := if request.stream then "streamGenerateContent" else "generateContent"
  let directory ← checkedJoin U base "v1beta/models/"
  let url ← orInvalid (U.pushSegment directory (request.model ++ ":" ++ method))
  requireThat (url.scheme == base.scheme && url.host == base.host && startsWith url.path
    directory.path)
  return if request.stream then U.appendPair url "alt" "sse" else url

/-! ## The adapter -/

namespace UpstreamAdapter

variable (U : UrlLibrary) (adapter : UpstreamAdapter) (request : CanonicalRequest)

/-- `build_openai_responses`. -/
def buildOpenaiResponses : Result UpstreamRequest := do
  checkContents request adapter.limits
  let url ← joinWithin U adapter.baseUrl "responses"
  jsonRequest adapter.limits url (responsesDocument request) request.stream

/-- `build_openai_chat`. -/
def buildOpenaiChat : Result UpstreamRequest := do
  let body ← encodeChatBody request adapter.limits
  let url ← joinWithin U adapter.baseUrl "chat/completions"
  jsonRequest adapter.limits url body request.stream

/-- `build_anthropic`. -/
def buildAnthropic (operation : UpstreamOperation) : Result UpstreamRequest := do
  request.input.forM (checkItem adapter.limits)
  request.tools.forM (checkTool adapter.limits)
  let url ← joinWithin U adapter.baseUrl
    (match operation with | .text => "v1/messages" | .countTokens => "v1/messages/count_tokens")
  let outbound ← jsonRequest adapter.limits url (anthropicDocument request operation)
    (operation = .text && request.stream)
  return { outbound with headers := outbound.headers.insert "anthropic-version" "2023-06-01" }

/-- `build_gemini`, with `GeminiAdapter::build_request` inside; the key header that one writes is
    removed again. -/
def buildGemini : Result UpstreamRequest := do
  let thinking := Json.obj [("thinkingBudget", .ofNat (anthropicThinkingBudget request))]
  let extensions :=
    if request.reasoning.isSome && !request.extensions.contains "gemini.thinking_config" then
      request.extensions.insert "gemini.thinking_config" thinking.toValue
    else request.extensions
  let request := { request with extensions }
  validateBaseUrl adapter.baseUrl
  validateAsciiIdentifier request.model adapter.limits.maxIdentifierBytes
  requireThat (!(request.input.length > adapter.limits.maxCollectionItems
    || request.tools.length > adapter.limits.maxCollectionItems))
  let url ← geminiUrl U adapter.baseUrl request
  let body ← geminiBody adapter.limits request
  jsonRequest adapter.limits url body request.stream

/-- `build_azure`. -/
def buildAzure : Result UpstreamRequest := do
  validateIdentifier request.model adapter.limits.maxIdentifierBytes
  let basePath := trimEndMatches adapter.baseUrl.path '/'
  let relative := (if endsWith basePath "/openai" then "deployments/" else "openai/deployments/")
    ++ request.model ++ "/chat/completions"
  let url ← joinWithin U adapter.baseUrl relative
  let body ← encodeChatBody request adapter.limits
  jsonRequest adapter.limits (U.appendPair url "api-version" "2024-10-21") body request.stream

/-- `UpstreamAdapter::build_request`. -/
def buildRequest (operation : UpstreamOperation) : Result UpstreamRequest := do
  validateRequest request adapter.limits
  match adapter.protocol, operation with
  | .openAiResponses, .text => adapter.buildOpenaiResponses U request
  | .openAiChat, .text => adapter.buildOpenaiChat U request
  | .anthropic, operation => adapter.buildAnthropic U request operation
  | .gemini, .text => adapter.buildGemini U request
  | .azureOpenAi, .text => adapter.buildAzure U request
  | _, _ => .error .unsupportedCapability

end UpstreamAdapter

end Wokcore.Protocols.Upstream
