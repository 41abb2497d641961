import Wokcore.Protocols.Inbound.Common

/-!
# Decoding Chat Completions requests (`inbound/chat.rs`)

The wire types come first, each with the reader that `serde` derives for it. The decoder then splits
a message in two: its texts, images and tool results go to one flat list of input items, and
everything else (its role, its tool calls, which items are its own) into a record of the side table
that ends up in the extensions under `chat.messages`.

The three content types of the source differ only in their parts, so there is one `ChatContent`, and
one loop over parts.
-/

set_option autoImplicit false

namespace Wokcore.Protocols.Inbound

open Lib

/-! ## Wire types -/

/-- `ChatTextContent`, `ChatUserContent` and `ChatAssistantContent`: a text, or a list of parts. -/
inductive ChatContent (α : Type) where
  | text (text : String)
  | parts (parts : List α)

structure ChatTextPart where
  text : String
  extra : Extensions
  /-- A field of its own is not among the others. -/
  fresh : extra.get? "text" = none

structure ChatImageUrl where
  url : String
  detail : Option ImageDetail
  extra : Extensions

inductive ChatUserPart where
  | text (text : String) (extra : Extensions)
  | image (imageUrl : ChatImageUrl) (extra : Extensions)

inductive ChatAssistantPart where
  | text (text : String) (extra : Extensions)
  | refusal (refusal : String) (extra : Extensions)

abbrev ChatTextContent := ChatContent ChatTextPart
abbrev ChatUserContent := ChatContent ChatUserPart
abbrev ChatAssistantContent := ChatContent ChatAssistantPart

structure ChatCalledFunction where
  name : String
  arguments : String
  extra : Extensions

structure ChatToolCall where
  id : String
  kind : String
  function : ChatCalledFunction
  extra : Extensions

inductive ChatMessage where
  | system (content : ChatTextContent) (name : Option String) (extra : Extensions)
  | developer (content : ChatTextContent) (name : Option String) (extra : Extensions)
  | user (content : ChatUserContent) (name : Option String) (extra : Extensions)
  | assistant (content : Option ChatAssistantContent) (toolCalls : List ChatToolCall)
      (name refusal : Option String) (extra : Extensions)
  | tool (content : ChatTextContent) (toolCallId : String) (extra : Extensions)

structure ChatFunction where
  name : String
  description : Option String
  parameters : Option Value
  extra : Extensions

structure ChatTool where
  kind : String
  function : ChatFunction
  extra : Extensions

structure ChatStreamOptions where
  includeUsage : Option Bool
  extra : Extensions

structure ChatRequest where
  model : String
  messages : List ChatMessage
  tools : List ChatTool
  parallelToolCalls : Option Bool
  stream : Bool
  streamOptions : Option ChatStreamOptions
  reasoningEffort : Option String
  extra : Extensions

/-! ## Reading the wire types -/

section Readers

open Read

def readChatContent {α : Type} (readPart : Json → Option α) : Json → Option (ChatContent α)
  | .str s => some (.text s)
  | j => (list readPart j).map .parts

variable (j : Json)

def readChatTextPart : Option ChatTextPart := do
  let fs ← j.asObject
  let (_, fs) ← tagged true "type" [("text", ())] fs
  return {
    text := ← required "text" str fs
    extra := rest ["text"] fs
    fresh := get?_rest (by simp) fs }

def readChatImageUrl : Option ChatImageUrl := do
  let fs ← j.asObject
  return {
    url := ← required "url" str fs
    detail := ← maybe "detail" readImageDetail fs
    extra := rest ["url", "detail"] fs }

inductive ChatUserPartKind where
  | text
  | image

def readChatUserPart : Option ChatUserPart := do
  let fs ← j.asObject
  let (kind, fs) ← tagged true "type" [("text", ChatUserPartKind.text), ("image_url", .image)] fs
  match kind with
  | .text => return .text (← required "text" str fs) (rest ["text"] fs)
  | .image => return .image (← required "image_url" readChatImageUrl fs) (rest ["image_url"] fs)

inductive ChatAssistantPartKind where
  | text
  | refusal

def readChatAssistantPart : Option ChatAssistantPart := do
  let fs ← j.asObject
  let (kind, fs) ← tagged true "type" [("text", ChatAssistantPartKind.text),
    ("refusal", .refusal)] fs
  match kind with
  | .text => return .text (← required "text" str fs) (rest ["text"] fs)
  | .refusal => return .refusal (← required "refusal" str fs) (rest ["refusal"] fs)

def readChatCalledFunction : Option ChatCalledFunction := do
  let fs ← j.asObject
  return {
    name := ← required "name" str fs
    arguments := ← required "arguments" str fs
    extra := rest ["name", "arguments"] fs }

def readChatToolCall : Option ChatToolCall := do
  let fs ← j.asObject
  return {
    id := ← required "id" str fs
    kind := ← required "type" str fs
    function := ← required "function" readChatCalledFunction fs
    extra := rest ["id", "type", "function"] fs }

inductive ChatRole where
  | system
  | developer
  | user
  | assistant
  | tool
deriving DecidableEq, Repr

def chatRoles : List (String × ChatRole) :=
  [("system", .system), ("developer", .developer), ("user", .user), ("assistant", .assistant),
    ("tool", .tool)]

def readChatMessage : Option ChatMessage := do
  let fs ← j.asObject
  let (role, fs) ← tagged false "role" chatRoles fs
  match role with
  | .system =>
    return .system (← required "content" (readChatContent readChatTextPart) fs)
      (← maybe "name" str fs) (rest ["content", "name"] fs)
  | .developer =>
    return .developer (← required "content" (readChatContent readChatTextPart) fs)
      (← maybe "name" str fs) (rest ["content", "name"] fs)
  | .user =>
    return .user (← required "content" (readChatContent readChatUserPart) fs)
      (← maybe "name" str fs) (rest ["content", "name"] fs)
  | .assistant =>
    return .assistant (← maybe "content" (readChatContent readChatAssistantPart) fs)
      (← withDefault "tool_calls" (list readChatToolCall) [] fs)
      (← maybe "name" str fs) (← maybe "refusal" str fs)
      (rest ["content", "tool_calls", "name", "refusal"] fs)
  | .tool =>
    return .tool (← required "content" (readChatContent readChatTextPart) fs)
      (← required "tool_call_id" str fs) (rest ["content", "tool_call_id"] fs)

def readChatFunction : Option ChatFunction := do
  let fs ← j.asObject
  return {
    name := ← required "name" str fs
    description := ← maybe "description" str fs
    parameters := ← maybe "parameters" value fs
    extra := rest ["name", "description", "parameters"] fs }

def readChatTool : Option ChatTool := do
  let fs ← j.asObject
  return {
    kind := ← required "type" str fs
    function := ← required "function" readChatFunction fs
    extra := rest ["type", "function"] fs }

def readChatStreamOptions : Option ChatStreamOptions := do
  let fs ← j.asObject
  return { includeUsage := ← maybe "include_usage" bool fs, extra := rest ["include_usage"] fs }

def readChatRequest : Option ChatRequest := do
  let fs ← j.asObject
  return {
    model := ← required "model" str fs
    messages := ← required "messages" (list readChatMessage) fs
    tools := ← withDefault "tools" (list readChatTool) [] fs
    parallelToolCalls := ← maybe "parallel_tool_calls" bool fs
    stream := ← withDefault "stream" bool false fs
    streamOptions := ← maybe "stream_options" readChatStreamOptions fs
    reasoningEffort := ← maybe "reasoning_effort" str fs
    extra := rest ["model", "messages", "tools", "parallel_tool_calls", "stream", "stream_options",
      "reasoning_effort"] fs }

end Readers

/-! ## Message contents -/

/-- `push_part_extra`: the record of a part's unknown fields, if it has any. -/
def partExtra (index : Nat) (extra : Extensions) : List Value :=
  if extra.isEmpty then []
  else [.object (.ofList [("index", .ofNat index), ("extra", .object extra)])]

/-- The loop over the parts of a content: their items and the records of their unknown fields. -/
def decodeParts {α : Type} (decodePart : Nat → α → Result (InputItem × List Value)) :
    Nat → List α → Items
  | _, [] => .ok ([], [])
  | index, part :: parts => do
    let (item, extra) ← decodePart index part
    let (items, extras) ← decodeParts decodePart (index + 1) parts
    return (item :: items, extra ++ extras)

/-- `insert_values`. -/
def insertValues (key : String) (values : List Value) (extension : Extensions) : Extensions :=
  if values.isEmpty then extension else extension.insert key (.array values)

/-- `insert_map`. -/
def insertMap (key : String) (map extension : Extensions) : Extensions :=
  if map.isEmpty then extension else extension.insert key (.object map)

/-- The shape the three content decoders share. -/
def decodeContent {α : Type} (decodePart : Nat → α → Result (InputItem × List Value))
    (content : ChatContent α) (input : List InputItem) (extension : Extensions) : Extended :=
  match content with
  | .text text => .ok (input ++ [.text text], extension.insert "content_form" (.ofStr "text"))
  | .parts parts => do
    requireThat (!parts.isEmpty)
    let (items, extras) ← decodeParts decodePart 0 parts
    return (input ++ items,
      insertValues "content_extra" extras (extension.insert "content_form" (.ofStr "parts")))

/-- `decode_text_content`. -/
def decodeTextContent : ChatTextContent → List InputItem → Extensions →
    Extended :=
  decodeContent fun index part => .ok (.text part.text, partExtra index part.extra)

variable (P : Parsers)

def decodeUserPart (index : Nat) : ChatUserPart → Result (InputItem × List Value)
  | .text text extra => .ok (.text text, partExtra index extra)
  | .image imageUrl extra => do
    let url ← decodeImageUrl P imageUrl.url
    return (.imageUrl url imageUrl.detail, partExtra index
      (insertMap "image_url" imageUrl.extra extra))

/-- `decode_user_content`. -/
def decodeUserContent : ChatUserContent → List InputItem → Extensions →
    Extended :=
  decodeContent (decodeUserPart P)

def decodeAssistantPart (index : Nat) : ChatAssistantPart → Result (InputItem × List Value)
  | .text text extra => .ok (.text text, partExtra index extra)
  | .refusal refusal extra =>
    .ok (.text refusal, [.object (insertMap "extra" extra
      (.ofList [("index", .ofNat index), ("type", .ofStr "refusal")]))])

/-- `decode_assistant_content`. -/
def decodeAssistantContent : ChatAssistantContent → List InputItem → Extensions →
    Extended :=
  decodeContent decodeAssistantPart

/-- `value.extend(extra)`: entries of `extra` replace those of the map. -/
def extend (map extra : Extensions) : Extensions :=
  extra.entries.foldl (fun m e => m.insert e.1 e.2) map

/-- The value of a text part, with its unknown fields. -/
def textPartValue (part : ChatTextPart) : Value :=
  .object (extend (.ofList [("type", .ofStr "text"), ("text", .ofStr part.text)]) part.extra)

/-- `tool_content_value`. -/
def toolContentValue : ChatTextContent → Result (String × Value)
  | .text text => .ok ("text", .ofStr text)
  | .parts parts => do
    requireThat (!parts.isEmpty)
    return ("parts", .array (parts.map textPartValue))

/-! ## Messages -/

/-- The value of a checked tool call. -/
def toolCallValue (call : ChatToolCall) : Value :=
  let function := extend
    (.ofList [("name", .ofStr call.function.name), ("arguments", .ofStr call.function.arguments)])
    call.function.extra
  .object (extend
    (.ofList [("id", .ofStr call.id), ("type", .ofStr "function"), ("function", .object function)])
    call.extra)

/-- The loop of `decode_tool_calls`; `ids` are the ids already seen. -/
def decodeToolCallsFrom : List String → List ChatToolCall → Result (List Value)
  | _, [] => .ok []
  | ids, call :: calls => do
    requireThat (call.kind == "function" && !call.id.isEmpty
      && validChatFunctionName call.function.name && !ids.contains call.id)
    let values ← decodeToolCallsFrom (call.id :: ids) calls
    return toolCallValue call :: values

/-- `decode_tool_calls`. -/
def decodeToolCalls (calls : List ChatToolCall) : Result Value := do
  return .array (← decodeToolCallsFrom [] calls)

/-- `insert_name`. -/
def insertName (name : Option String) (extension : Extensions) : Result Extensions :=
  match name with
  | none => .ok extension
  | some name => do
    validateNonEmpty name
    return extension.insert "name" (.ofStr name)

/-- The arm for messages that have a content and a name: system, developer and user. -/
def decodeNamed (role : String) (content : Extensions → Extended)
    (name : Option String) (extra extension : Extensions) : Extended := do
  let (input, extension) ← content (extension.insert "role" (.ofStr role))
  let extension ← insertName name extension
  return (input, insertMap "extra" extra extension)

/-- The content of an assistant message, which may be missing. -/
def decodeAssistantForm (content : Option ChatAssistantContent) (input : List InputItem)
    (extension : Extensions) : Extended :=
  match content with
  | some content => decodeAssistantContent content input extension
  | none => .ok (input, extension.insert "content_form" (.ofStr "null"))

/-- The refusal of an assistant message. -/
def decodeRefusal (refusal : Option String) (input : List InputItem) (extension : Extensions) :
    Extended :=
  match refusal with
  | none => .ok (input, extension)
  | some refusal => do
    validateNonEmpty refusal
    return (input ++ [.text refusal], extension.insert "refusal" (.ofStr refusal))

/-- The tool calls of an assistant message. -/
def insertToolCalls (toolCalls : List ChatToolCall) (extension : Extensions) : Result Extensions :=
  if toolCalls.isEmpty then .ok extension
  else do return extension.insert "tool_calls" (← decodeToolCalls toolCalls)

/-- The arm for assistant messages. -/
def decodeAssistant (content : Option ChatAssistantContent) (toolCalls : List ChatToolCall)
    (name refusal : Option String) (extra : Extensions) (input : List InputItem)
    (extension : Extensions) : Extended := do
  let (input', extension) ←
    decodeAssistantForm content input (extension.insert "role" (.ofStr "assistant"))
  let (input', extension) ← decodeRefusal refusal input' extension
  requireThat (!(toolCalls.isEmpty && input'.length == input.length && !extension.contains
    "refusal"))
  let extension ← insertToolCalls toolCalls extension
  let extension ← insertName name extension
  return (input', insertMap "extra" extra extension)

/-- The arm for tool messages. -/
def decodeToolMessage (content : ChatTextContent) (toolCallId : String) (extra : Extensions)
    (input : List InputItem) (extension : Extensions) : Extended := do
  validateNonEmpty toolCallId
  let (contentForm, output) ← toolContentValue content
  let extension := extension.insert "role" (.ofStr "tool")
    |>.insert "tool_call_id" (.ofStr toolCallId)
    |>.insert "content_form" (.ofStr contentForm)
  return (input ++ [.toolResult toolCallId output], insertMap "extra" extra extension)

/-- The arms of `decode_message`. -/
def decodeMessageArm (message : ChatMessage) (input : List InputItem)
    (extension : Extensions) : Extended :=
  match message with
  | .system content name extra =>
    decodeNamed "system" (decodeTextContent content input) name extra extension
  | .developer content name extra =>
    decodeNamed "developer" (decodeTextContent content input) name extra extension
  | .user content name extra =>
    decodeNamed "user" (decodeUserContent P content input) name extra extension
  | .assistant content toolCalls name refusal extra =>
    decodeAssistant content toolCalls name refusal extra input extension
  | .tool content toolCallId extra => decodeToolMessage content toolCallId extra input extension

/-- `decode_message`: the input with the items of the message, and the record of the message. -/
def decodeMessage (message : ChatMessage) (index : Nat) (input : List InputItem) :
    Result (List InputItem × Value) := do
  let inputStart := input.length
  let (input, extension) ←
    decodeMessageArm P message input (EntryMap.empty.insert "index" (.ofNat index))
  return (input, .object (extension.insert "input_start" (.ofNat inputStart)
    |>.insert "input_end" (.ofNat input.length)))

/-- The loop of `decode_messages`. -/
def decodeMessagesFrom (P : Parsers) : List ChatMessage → Nat → List InputItem →
    Items
  | [], _, input => .ok (input, [])
  | message :: messages, index, input => do
    let (input, extension) ← decodeMessage P message index input
    let (input, extensions) ← decodeMessagesFrom P messages (index + 1) input
    return (input, extension :: extensions)

/-- `decode_messages`. -/
def decodeMessages (messages : List ChatMessage) : Items :=
  decodeMessagesFrom P messages 0 []

/-! ## Tools and the request -/

/-- `decode_tool`. -/
def decodeChatTool (wire : ChatTool) : Result ToolDefinition := do
  let parameters := wire.function.parameters.getD (.object .empty)
  requireThat (wire.kind == "function" && validChatFunctionName wire.function.name
    && parameters.tree.isObject)
  let extensions :=
    if wire.extra.isEmpty then wire.function.extra
    else insertExtensionWithoutCollision wire.function.extra "chat.wrapper" (.object wire.extra)
  return {
    name := wire.function.name
    description := wire.function.description
    inputSchema := parameters
    extensions := extensions }

/-- The loop of `decode_tools`; `names` are the names already seen. -/
def decodeChatToolsFrom : List String → List ChatTool → Result (List ToolDefinition)
  | _, [] => .ok []
  | names, tool :: tools => do
    let decoded ← decodeChatTool tool
    requireThat (!names.contains decoded.name)
    let rest ← decodeChatToolsFrom (decoded.name :: names) tools
    return decoded :: rest

/-- `decode_tools`. -/
def decodeChatTools : List ChatTool → Result (List ToolDefinition) := decodeChatToolsFrom []

/-- `stream_options_value`. -/
def streamOptionsValue (options : ChatStreamOptions) : Value :=
  .object (match options.includeUsage with
    | some includeUsage => options.extra.insert "include_usage" (.ofBool includeUsage)
    | none => options.extra)

/-- The extensions of a decoded request. -/
def chatExtensions (wire : ChatRequest) (messageExtensions : List Value) : Extensions :=
  let extensions := insertExtensionWithoutCollision wire.extra "chat.messages"
    (.array messageExtensions)
  let extensions := match wire.parallelToolCalls with
    | some parallel =>
      insertExtensionWithoutCollision extensions "chat.parallel_tool_calls" (.ofBool parallel)
    | none => extensions
  match wire.streamOptions with
  | some options =>
    insertExtensionWithoutCollision extensions "chat.stream_options" (streamOptionsValue options)
  | none => extensions

/-- `reasoning_effort`, which may not be empty. -/
def chatReasoning : Option String → Result (Option ReasoningOptions)
  | none => .ok none
  | some effort => do
    validateNonEmpty effort
    return some { effort := some effort, extensions := .empty }

/-- `ChatCodec::decode_request` after the wire type is read. -/
def decodeChatWire (requestId : String) (wire : ChatRequest) : Result CanonicalRequest := do
  validateNonEmpty wire.model
  requireThat (!(wire.messages.isEmpty || (wire.streamOptions.isSome && !wire.stream)))
  let (input, messageExtensions) ← decodeMessages P wire.messages
  let tools ← decodeChatTools wire.tools
  let reasoning ← chatReasoning wire.reasoningEffort
  return {
    requestId
    model := wire.model
    threadKey := none
    input
    tools
    stream := wire.stream
    reasoning
    extensions := chatExtensions wire messageExtensions }

/-- `ChatCodec::decode_request`. -/
def decodeChatRequest (requestId : String) (json : Bytes) : Result CanonicalRequest := do
  let document ← readBody P json
  let wire ← orInvalid (readChatRequest document)
  decodeChatWire P requestId wire

end Wokcore.Protocols.Inbound
