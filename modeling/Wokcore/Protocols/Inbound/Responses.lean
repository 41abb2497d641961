import Wokcore.Protocols.Inbound.Common

/-!
# Decoding Responses requests (`inbound/responses.rs`)

The input of a request is a text or a list of items, and an item is the first of four record types
that reads: a message with a role, a bare text, a bare image or the output of a function call. As in
the Chat decoder the texts, images and outputs become one flat list of input items, and the role of
a message goes to a side table, here under `responses.input_extensions`.
-/

set_option autoImplicit false

namespace Wokcore.Protocols.Inbound

open Lib

/-! ## Wire types -/

inductive ResponsesRole where
  | user
  | assistant
  | system
  | developer
deriving DecidableEq, Repr

/-- `ResponsesRole::as_str`. -/
def ResponsesRole.asStr : ResponsesRole → String
  | .user => "user"
  | .assistant => "assistant"
  | .system => "system"
  | .developer => "developer"

inductive ResponsesContentPart where
  | text (text : String) (extra : Extensions)
  | image (imageUrl : String) (detail : Option ImageDetail) (extra : Extensions)

inductive ResponsesMessageContent where
  | text (text : String)
  | parts (parts : List ResponsesContentPart)

structure ResponsesMessage where
  kind : Option String
  role : ResponsesRole
  content : ResponsesMessageContent
  extra : Extensions

structure ResponsesTextItem where
  kind : String
  text : String
  extra : Extensions

structure ResponsesImageItem where
  kind : String
  imageUrl : String
  detail : Option ImageDetail
  extra : Extensions

structure ResponsesToolResult where
  kind : String
  callId : String
  output : Value
  extra : Extensions

inductive ResponsesInputItem where
  | message (message : ResponsesMessage)
  | text (text : ResponsesTextItem)
  | image (image : ResponsesImageItem)
  | toolResult (result : ResponsesToolResult)

inductive ResponsesInput where
  | text (text : String)
  | items (items : List ResponsesInputItem)

structure ResponsesTool where
  kind : String
  name : String
  description : Option String
  parameters : Value
  extra : Extensions

structure ResponsesReasoning where
  effort : Option String
  extra : Extensions

structure ResponsesRequest where
  model : String
  input : ResponsesInput
  tools : List ResponsesTool
  stream : Bool
  reasoning : Option ResponsesReasoning
  previousResponseId : Option String
  extra : Extensions

/-! ## Reading the wire types -/

section Readers

open Read

def responsesRoles : List (String × ResponsesRole) :=
  [("user", .user), ("assistant", .assistant), ("system", .system), ("developer", .developer)]

inductive ResponsesPartKind where
  | text
  | image

variable (j : Json)

def readResponsesContentPart : Option ResponsesContentPart := do
  let fs ← j.asObject
  let (kind, fs) ← tagged true "type" [("input_text", ResponsesPartKind.text),
    ("input_image", .image)] fs
  match kind with
  | .text => return .text (← required "text" str fs) (rest ["text"] fs)
  | .image =>
    return .image (← required "image_url" str fs) (← maybe "detail" readImageDetail fs)
      (rest ["image_url", "detail"] fs)

def readResponsesMessageContent : Json → Option ResponsesMessageContent
  | .str s => some (.text s)
  | j => (list readResponsesContentPart j).map .parts

def readResponsesMessage : Option ResponsesMessage := do
  let fs ← j.asObject
  return {
    kind := ← maybe "type" str fs
    role := ← required "role" (unit responsesRoles) fs
    content := ← required "content" readResponsesMessageContent fs
    extra := rest ["type", "role", "content"] fs }

def readResponsesTextItem : Option ResponsesTextItem := do
  let fs ← j.asObject
  return {
    kind := ← required "type" str fs
    text := ← required "text" str fs
    extra := rest ["type", "text"] fs }

def readResponsesImageItem : Option ResponsesImageItem := do
  let fs ← j.asObject
  return {
    kind := ← required "type" str fs
    imageUrl := ← required "image_url" str fs
    detail := ← maybe "detail" readImageDetail fs
    extra := rest ["type", "image_url", "detail"] fs }

def readResponsesToolResult : Option ResponsesToolResult := do
  let fs ← j.asObject
  return {
    kind := ← required "type" str fs
    callId := ← required "call_id" str fs
    output := ← required "output" value fs
    extra := rest ["type", "call_id", "output"] fs }

def readResponsesInputItem : Option ResponsesInputItem :=
  (readResponsesMessage j).map .message
    <|> (readResponsesTextItem j).map .text
    <|> (readResponsesImageItem j).map .image
    <|> (readResponsesToolResult j).map .toolResult

def readResponsesInput : Json → Option ResponsesInput
  | .str s => some (.text s)
  | j => (list readResponsesInputItem j).map .items

def readResponsesTool : Option ResponsesTool := do
  let fs ← j.asObject
  return {
    kind := ← required "type" str fs
    name := ← required "name" str fs
    description := ← maybe "description" str fs
    parameters := ← required "parameters" value fs
    extra := rest ["type", "name", "description", "parameters"] fs }

def readResponsesReasoning : Option ResponsesReasoning := do
  let fs ← j.asObject
  return { effort := ← maybe "effort" str fs, extra := rest ["effort"] fs }

def readResponsesRequest : Option ResponsesRequest := do
  let fs ← j.asObject
  return {
    model := ← required "model" str fs
    input := ← required "input" readResponsesInput fs
    tools := ← withDefault "tools" (list readResponsesTool) [] fs
    stream := ← withDefault "stream" bool false fs
    reasoning := ← maybe "reasoning" readResponsesReasoning fs
    previousResponseId := ← maybe "previous_response_id" str fs
    extra := rest ["model", "input", "tools", "stream", "reasoning", "previous_response_id"] fs }

end Readers

/-! ## Input items -/

/-- `push_item_extension`, and the same record for a part of a message. -/
def itemExtension (index : Nat) (extra : Extensions) : List Value :=
  if extra.isEmpty then []
  else [.object (.ofList [("index", .ofNat index), ("extra", .object extra)])]

variable (P : Parsers)

def decodeResponsesPart : ResponsesContentPart → Result (InputItem × Extensions)
  | .text text extra => .ok (.text text, extra)
  | .image imageUrl detail extra =>
    do return (.imageUrl (← decodeImageUrl P imageUrl) detail, extra)

/-- The loop of `decode_message_content`. -/
def decodeResponsesParts (P : Parsers) : Nat → List ResponsesContentPart → Items
  | _, [] => .ok ([], [])
  | index, part :: parts => do
    let (item, extra) ← decodeResponsesPart P part
    let (items, extensions) ← decodeResponsesParts P (index + 1) parts
    return (item :: items, itemExtension index extra ++ extensions)

/-- `decode_message_content`. -/
def decodeMessageContent : ResponsesMessageContent → Items
  | .text text => .ok ([.text text], [])
  | .parts parts => decodeResponsesParts P 0 parts

/-- The record of a message: its role always, its unknown fields and those of its parts if any. -/
def messageExtension (message : ResponsesMessage) (contentExtensions : List Value) (index : Nat) :
    Value :=
  let extension := EntryMap.empty.insert "role" (Value.ofStr message.role.asStr)
  let extension :=
    if message.extra.isEmpty then extension else extension.insert "message" (.object message.extra)
  let extension :=
    if contentExtensions.isEmpty then extension else extension.insert "content"
      (.array contentExtensions)
  .object (extension.insert "index" (.ofNat index))

/-- `decode_input_item`: the items and the records it adds. -/
def decodeInputItem (index : Nat) : ResponsesInputItem → Items
  | .message message => do
    requireThat (message.kind.all (· == "message"))
    let (items, contentExtensions) ← decodeMessageContent P message.content
    return (items, [messageExtension message contentExtensions index])
  | .text text => do
    requireThat (text.kind == "input_text")
    return ([.text text.text], itemExtension index text.extra)
  | .image image => do
    requireThat (image.kind == "input_image")
    return ([.imageUrl (← decodeImageUrl P image.imageUrl) image.detail],
      itemExtension index image.extra)
  | .toolResult result => do
    requireThat (result.kind == "function_call_output" && !result.callId.isEmpty)
    return ([.toolResult result.callId result.output], itemExtension index result.extra)

/-- The loop of `decode_input`. -/
def decodeInputItems (P : Parsers) : Nat → List ResponsesInputItem → Items
  | _, [] => .ok ([], [])
  | index, item :: items => do
    let (input, extensions) ← decodeInputItem P index item
    let (inputs, rest) ← decodeInputItems P (index + 1) items
    return (input ++ inputs, extensions ++ rest)

/-- `decode_input`. -/
def decodeInput : ResponsesInput → Items
  | .text text => .ok ([.text text], [])
  | .items items => decodeInputItems P 0 items

/-! ## Tools and the request -/

/-- `decode_tool`. -/
def decodeResponsesTool (wire : ResponsesTool) : Result ToolDefinition := do
  requireThat (wire.kind == "function" && !wire.name.isEmpty && wire.parameters.tree.isObject)
  return {
    name := wire.name
    description := wire.description
    inputSchema := wire.parameters
    extensions := wire.extra }

/-- `previous_response_id`, which may not be empty. -/
def responsesThreadKey : Option String → Result (Option String)
  | none => .ok none
  | some value => do
    validateNonEmpty value
    return some value

/-- `ResponsesCodec::decode_request` after the wire type is read. -/
def decodeResponsesWire (requestId : String) (wire : ResponsesRequest) :
    Result CanonicalRequest := do
  validateNonEmpty wire.model
  let (input, inputExtensions) ← decodeInput P wire.input
  let tools ← wire.tools.mapM decodeResponsesTool
  let threadKey ← responsesThreadKey wire.previousResponseId
  return {
    requestId
    model := wire.model
    threadKey
    input
    tools
    stream := wire.stream
    reasoning := wire.reasoning.map fun r => { effort := r.effort, extensions := r.extra }
    extensions :=
      if inputExtensions.isEmpty then wire.extra
      else insertExtensionWithoutCollision wire.extra "responses.input_extensions"
        (.array inputExtensions) }

/-- `ResponsesCodec::decode_request`. -/
def decodeResponsesRequest (requestId : String) (json : Bytes) : Result CanonicalRequest := do
  let document ← readBody P json
  let wire ← orInvalid (readResponsesRequest document)
  decodeResponsesWire P requestId wire

end Wokcore.Protocols.Inbound
