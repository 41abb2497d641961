import Wokcore.Protocols.Inbound.ImageUrls
import Wokcore.Protocols.Upstream.Reread
import Wokcore.Lib.Json.Size

/-!
# Accepting a body for Responses or Chat

A request that a decoder made and an adapter let through is encoded, and the decoder of the same
protocol is given the document. `SameRequest` says what has to come back. The Responses decoder
accepts every such document, the Chat decoder exactly those in which the names of the tools differ.
-/

set_option autoImplicit false

namespace Wokcore.Protocols

open Lib Wokcore.Core Inbound Upstream ToolDefinition Result Outcome List Option

variable {p : ClientProtocol} {request : CanonicalRequest} {P : Parsers} {value requestId : String}
  {item : InputItem} {items : List InputItem}

/-! ## Saying the same -/

/-- What is compared of an input item: its text, its image URL or its call id. -/
inductive ItemFace where
  | text (text : String)
  | image (url : Url)
  | result (callId : String)
deriving DecidableEq

def InputItem.face : InputItem → ItemFace
  | .text words => .text words
  | .imageUrl url _ => .image url
  | .toolResult callId _ => .result callId

/-- What a client sees of a tool. -/
def ToolDefinition.face (tool : ToolDefinition) : String × Option String × Value :=
  (tool.name, tool.description, tool.inputSchema)

/-- The model, the stream flag, the items and the tools are the same. -/
structure SameRequest (request again : CanonicalRequest) : Prop where
  model : again.model = request.model
  stream : again.stream = request.stream
  input : again.input.map InputItem.face = request.input.map InputItem.face
  tools : again.tools.map face = request.tools.map face

/-! ## Requests read again -/

section Reread

variable {F : FloatReader} {request' : CanonicalRequest}

/-- Every tool schema is read back unchanged. -/
def SchemasStable (F : FloatReader) (request : CanonicalRequest) : Prop :=
  ∀ tool ∈ request.tools, tool.inputSchema.reread F = some tool.inputSchema

/-- Every tool output is read back, changed or not. -/
def OutputsReadable (F : FloatReader) (request : CanonicalRequest) : Prop :=
  ∀ callId output, .toolResult callId output ∈ request.input → (output.reread F).isSome = true

theorem face_reread {item item' : InputItem} (h : item.reread F = some item') :
    item'.face = item.face := by
  cases item with
  | text | imageUrl => cases h; rfl
  | toolResult callId output =>
    obtain ⟨output', -, rfl⟩ := map_eq_some_iff.mp h
    rfl

theorem exists_mapM_iff {α β : Type*} {f : α → Option β} {as : List α} :
    (∃ bs, as.mapM f = some bs) ↔ ∀ a ∈ as, (f a).isSome = true := by
  induction as with
  | nil => exact ⟨fun _ a ha => absurd ha (by simp), fun _ => ⟨[], rfl⟩⟩
  | cons a as ih =>
    rw [forall_mem_cons, ← ih, isSome_iff_exists]
    simp only [mapM_eq_some, forall₂_cons_left_iff]
    constructor
    · rintro ⟨_, b, bs, hb, hbs, -⟩
      exact ⟨⟨b, hb⟩, bs, hbs⟩
    · rintro ⟨⟨b, hb⟩, bs, hbs⟩
      exact ⟨_, b, bs, hb, hbs, rfl⟩

theorem mapM_eq_self {α : Type*} {f : α → Option α} {as : List α} :
    as.mapM f = some as ↔ ∀ a ∈ as, f a = some a := mapM_eq_some.trans forall₂_same

theorem reread_eq_self_iff (tool : ToolDefinition) :
    tool.reread F = some tool ↔ tool.inputSchema.reread F = some tool.inputSchema := by
  rw [reread, map_eq_some_iff]
  constructor
  · rintro ⟨schema, hs, heq⟩
    have : schema = tool.inputSchema := congrArg inputSchema heq
    rw [hs, this]
  · intro h
    exact ⟨tool.inputSchema, h, rfl⟩

/-- A tool read again has its schema read again, and is otherwise the same. -/
theorem of_tool_reread {tool tool' : ToolDefinition} (h : tool.reread F = some tool') :
    tool'.name = tool.name ∧ tool'.description = tool.description ∧
      tool.inputSchema.reread F = some tool'.inputSchema := by
  obtain ⟨schema, hs, rfl⟩ := map_eq_some_iff.mp h
  exact ⟨rfl, rfl, hs⟩

/-- The faces of the tools survive a second reading exactly if the schemas do. -/
theorem faces_reread_iff {tools tools' : List ToolDefinition}
    (h : tools.mapM (reread F) = some tools') :
    tools'.map face = tools.map face ↔
      ∀ tool ∈ tools, tool.inputSchema.reread F = some tool.inputSchema := by
  have hall := mapM_eq_some.mp h
  clear h
  induction hall with
  | nil => simp
  | @cons tool tool' tools tools' ht _ ih =>
    obtain ⟨hname, hdescription, hschema⟩ := of_tool_reread ht
    have hface : tool'.face = tool.face ↔ tool.inputSchema.reread F = some tool.inputSchema := by
      simp only [face, hname, hdescription, Prod.mk.injEq, true_and, hschema,
        some.injEq]
    rw [map_cons, map_cons, cons.injEq, forall_mem_cons]
    exact and_congr hface ih

theorem of_rereadRequest (h : p.rereadRequest F request = some request') :
    ∃ input tools, p.rereadInput F request.input = some input ∧
      request.tools.mapM (reread F) = some tools ∧
      request' = { request with input, tools } := by
  obtain ⟨input, hi, h⟩ := bind_eq_some_iff.mp h
  obtain ⟨tools, ht, rfl⟩ := map_eq_some_iff.mp h
  exact ⟨input, tools, hi, ht, rfl⟩

theorem faces_rereadInput {input input' : List InputItem}
    (h : p.rereadInput F input = some input') :
    input'.map InputItem.face = input.map InputItem.face := by
  have hrun : ∀ {input input' : List InputItem}, input.mapM (InputItem.reread F) = some input' →
      input'.map InputItem.face = input.map InputItem.face := by
    intro input input' h
    have hall := mapM_eq_some.mp h
    clear h
    induction hall with
    | nil => rfl
    | cons hitem _ ih => rw [map_cons, map_cons, ih, face_reread hitem]
  cases p with
  | chat => cases h; rfl
  | responses | anthropic => exact hrun h

/-- A request that says the same as the request read again says the same as the request itself
    exactly if the schemas are stable. -/
theorem sameRequest_reread_iff {again : CanonicalRequest}
    (h : p.rereadRequest F request = some request') (hsame : SameRequest request' again) :
    SameRequest request again ↔ SchemasStable F request := by
  obtain ⟨input, tools, hi, ht, rfl⟩ := of_rereadRequest h
  rw [SchemasStable, ← faces_reread_iff ht]
  constructor
  · intro hs
    rw [← hs.tools, hsame.tools]
  · intro hfaces
    exact ⟨hsame.model, hsame.stream, hsame.input.trans (faces_rereadInput hi),
      hsame.tools.trans hfaces⟩

end Reread

/-! ## What the decoders and the adapter have checked -/

/-- What holds of a request that was decoded and passed the adapter, and of the same request read
    again. -/
structure Wellformed (P : Parsers) (request : CanonicalRequest) : Prop where
  model : request.model ≠ ""
  callId : ∀ callId output, .toolResult callId output ∈ request.input → callId ≠ ""
  image : ∀ url detail, .imageUrl url detail ∈ request.input →
    decodeImageUrl P url.serialization = .ok url
  name : ∀ tool ∈ request.tools, validChatFunctionName tool.name = true
  schema : ∀ tool ∈ request.tools, tool.inputSchema.tree.isObject = true

theorem ne_empty_of_validateIdentifier {limit : Nat} {u : Unit}
    (h : validateIdentifier value limit = .ok u) :
    value ≠ "" := by
  have h := requireThat_eq_ok.mp h
  simp only [Bool.not_eq_true', Bool.or_eq_false_iff] at h
  exact String.isEmpty_eq_false_iff.mp h.1.1.1.1

theorem validateNonEmpty_of_ne (h : value ≠ "") : validateNonEmpty value = .ok () :=
  requireThat_eq_ok.mpr (by simpa using h)

theorem ne_empty_of_validChatFunctionName {name : String} (h : validChatFunctionName name = true) :
    name ≠ "" := by
  rintro rfl
  exact absurd h (by decide)

theorem decode_schema_isObject {json : Bytes} (h : p.decode P requestId json = .ok request) :
    ∀ tool ∈ request.tools, tool.inputSchema.tree.isObject = true := by
  intro tool htool
  cases p with
  | chat =>
    obtain ⟨document, wire, -, -, h⟩ := decodeChatRequest_ok h
    obtain ⟨wireTool, -, hd⟩ := of_mem_decodeChatTools (decodeChatWire_ok h).tools htool
    exact (decodeChatTool_ok hd).2.2.2.2
  | responses =>
    obtain ⟨document, wire, -, -, h⟩ := decodeResponsesRequest_ok h
    obtain ⟨wireTool, -, hd⟩ := of_mem_right (mapM_eq_ok.mp (decodeResponsesWire_ok h).tools) htool
    exact (decodeResponsesTool_ok hd).2.2.2.2
  | anthropic =>
    obtain ⟨document, wire, -, -, h⟩ := decodeAnthropicMessage_ok h
    have hd := decodeAnthropicWire_ok h
    rw [hd.tools] at htool
    obtain ⟨wireTool, hmem, -, -, hschema⟩ := mem_clientTools htool
    obtain ⟨_, -, hvalid⟩ := do_eq_ok.mp (hd.valid.tool _ hmem)
    obtain ⟨_, hobject, -⟩ := do_eq_ok.mp hvalid
    rw [hschema]
    exact requireThat_eq_ok.mp hobject

section Faces

variable {as bs : List InputItem} (h : as.map InputItem.face = bs.map InputItem.face)
include h

theorem mem_of_faces {item : InputItem} (hi : item ∈ as) : ∃ item' ∈ bs, item'.face = item.face :=
  mem_map.mp (h ▸ mem_map_of_mem hi)

theorem mem_toolResult_of_faces {callId : String} {output : Value}
    (hi : .toolResult callId output ∈ as) :
    ∃ output', .toolResult callId output' ∈ bs := by
  obtain ⟨item, hb, hitem⟩ := mem_of_faces h hi
  cases item with
  | toolResult callId' output' => cases hitem; exact ⟨output', hb⟩
  | _ => cases hitem

theorem mem_imageUrl_of_faces {url : Url} {detail : Option ImageDetail}
    (hi : .imageUrl url detail ∈ as) :
    ∃ detail', .imageUrl url detail' ∈ bs := by
  obtain ⟨item, hb, hitem⟩ := mem_of_faces h hi
  cases item with
  | imageUrl url' detail' => cases hitem; exact ⟨detail', hb⟩
  | _ => cases hitem

end Faces

theorem isObject_reread {F : FloatReader} {v w : Value} (h : v.reread F = some w)
    (hv : v.tree.isObject = true) : w.tree.isObject = true := by
  have htree := Value.tree_reread F v
  rw [h] at htree
  cases hj : v.tree with
  | obj fs =>
    rw [hj] at htree
    obtain ⟨fs', -, hw⟩ := map_eq_some_iff.mp htree
    rw [← hw]
    rfl
  | _ =>
    rw [hj] at hv
    cases hv

/-- A wellformed request is wellformed when it is read again. -/
theorem Wellformed.reread {F : FloatReader} {request' : CanonicalRequest} (h : Wellformed P request)
    (hr : p.rereadRequest F request = some request') : Wellformed P request' := by
  obtain ⟨input, tools, hi, ht, rfl⟩ := of_rereadRequest hr
  have hfaces := faces_rereadInput hi
  have htool : ∀ tool' ∈ tools, ∃ tool ∈ request.tools, tool.reread F = some tool' :=
    fun tool' hmem => Read.of_mapM ht hmem
  refine ⟨h.model, fun callId output hmem => ?_, fun url detail hmem => ?_, fun tool' hmem => ?_,
    fun tool' hmem => ?_⟩
  · obtain ⟨output', hmem⟩ := mem_toolResult_of_faces hfaces hmem
    exact h.callId callId output' hmem
  · obtain ⟨detail', hmem⟩ := mem_imageUrl_of_faces hfaces hmem
    exact h.image url detail' hmem
  · obtain ⟨tool, hmem, hread⟩ := htool tool' hmem
    rw [(of_tool_reread hread).1]
    exact h.name tool hmem
  · obtain ⟨tool, hmem, hread⟩ := htool tool' hmem
    exact isObject_reread (of_tool_reread hread).2.2 (h.schema tool hmem)

/-! ## Responses -/

/-- An item after it went out and came in again. -/
def responsesAgain : InputItem → InputItem
  | .imageUrl url detail => .imageUrl url (some (detail.getD .auto))
  | item => item

theorem face_responsesAgain (item : InputItem) : (responsesAgain item).face = item.face := by
  cases item <;> rfl

theorem decodeInputItem_responsesWireItem (h : Wellformed P request) (hi : item ∈ request.input)
    (index : Nat) :
    ∃ records, decodeInputItem P index (responsesWireItem item) = .ok ([responsesAgain item],
      records) := by
  cases item with
  | text text => exact ⟨_, rfl⟩
  | imageUrl url detail =>
    have himage := h.image url detail hi
    have hparts : decodeMessageContent P
        (.parts [.image url.serialization (some (detail.getD .auto)) .empty]) =
          .ok ([.imageUrl url (some (detail.getD .auto))], []) := by
      simp only [decodeMessageContent, decodeResponsesParts, decodeResponsesPart, himage]
      rfl
    simp only [responsesWireItem, decodeInputItem, hparts]
    exact ⟨_, rfl⟩
  | toolResult callId output =>
    have hid := h.callId callId output hi
    simp only [responsesWireItem, decodeInputItem]
    rw [requireThat_eq_ok (u := ()) |>.mpr (by simpa using hid)]
    exact ⟨_, rfl⟩

theorem decodeInputItems_responsesWireItem (h : Wellformed P request)
    (hi : ∀ item ∈ items, item ∈ request.input) :
    ∀ index, ∃ records,
      decodeInputItems P index (items.map responsesWireItem) = .ok (items.map responsesAgain,
        records) := by
  induction items with
  | nil => exact fun index => ⟨[], rfl⟩
  | cons item items ih =>
    intro index
    obtain ⟨records, hr⟩ := decodeInputItem_responsesWireItem h (hi item mem_cons_self) index
    obtain ⟨more, hm⟩ := ih (fun x hx => hi x (mem_cons_of_mem _ hx)) (index + 1)
    refine ⟨records ++ more, ?_⟩
    rw [map_cons, decodeInputItems, hr, map_cons]
    rw [hm]
    rfl

/-- A Responses body of a wellformed request is accepted and says the same. -/
theorem responses_accepts (h : Wellformed P request) (requestId : String) :
    ∃ again, decodeResponsesWire P requestId (responsesWire request) = .ok again ∧
      SameRequest request again := by
  obtain ⟨records, hinput⟩ := decodeInputItems_responsesWireItem h
    (fun _ (hi : _ ∈ request.input) => hi) 0
  have htools : (responsesWire request).tools.mapM decodeResponsesTool =
    .ok (request.tools.map fun tool =>
      { tool with extensions := EntryMap.empty.insert "strict" (.ofBool false) }) := by
    rw [responsesWire, mapM_map]
    refine mapM_eq_ok_map fun tool ht => ?_
    have hname := ne_empty_of_validChatFunctionName (h.name tool ht)
    change decodeResponsesTool (responsesWireTool tool) = _
    unfold decodeResponsesTool
    rw [requireThat_eq_ok (u := ()) |>.mpr
      (by simpa [responsesWireTool, hname] using h.schema tool ht)]
    rfl
  have hmodel := validateNonEmpty_of_ne h.model
  have hdecode : decodeInput P (responsesWire request).input =
      .ok (request.input.map responsesAgain, records) :=
    hinput
  have hok : decodeResponsesWire P requestId (responsesWire request) = .ok {
      requestId
      model := request.model
      threadKey := none
      input := request.input.map responsesAgain
      tools := request.tools.map fun tool =>
        { tool with extensions := EntryMap.empty.insert "strict" (.ofBool false) }
      stream := request.stream
      reasoning := (responsesWire request).reasoning.map fun r => ⟨r.effort, r.extra⟩
      extensions :=
        if records.isEmpty then .empty
        else insertExtensionWithoutCollision .empty "responses.input_extensions"
          (.array records) } := by
    unfold decodeResponsesWire
    rw [show (responsesWire request).model = request.model from rfl, hmodel, hdecode, htools]
    rfl
  refine ⟨_, hok, rfl, rfl, ?_, ?_⟩
  · simp [Function.comp_def, face_responsesAgain]
  · simp [Function.comp_def, face]

/-! ## Chat -/

/-- An item after it went out and came in again; the output of a tool is its text now. -/
def chatAgain : InputItem → InputItem
  | .text text => .text text
  | .imageUrl url detail => .imageUrl url (some (detail.getD .auto))
  | .toolResult callId output => .toolResult callId (.ofStr (.ofList output.tree.print))

theorem face_chatAgain (item : InputItem) : (chatAgain item).face = item.face := by
  cases item <;> rfl

theorem decodeMessageArm_chatWireMessage (h : Wellformed P request) (hi : item ∈ request.input)
    (input : List InputItem) (e : Extensions) :
    ∃ e', decodeMessageArm P (chatWireMessage item) input e = .ok (input ++ [chatAgain item],
      e') := by
  cases item with
  | text text => exact ⟨_, rfl⟩
  | imageUrl url detail =>
    have himage := h.image url detail hi
    have hpart : decodeUserPart P 0
        (.image ⟨url.serialization, some (detail.getD .auto), .empty⟩ .empty) =
          .ok (.imageUrl url (some (detail.getD .auto)), []) := by
      simp only [decodeUserPart, himage]
      rfl
    have hcontent : ∀ e₁, ∃ e₂, decodeUserContent P
        (.parts [.image ⟨url.serialization, some (detail.getD .auto), .empty⟩ .empty]) input e₁ =
        .ok (input ++ [.imageUrl url (some (detail.getD .auto))], e₂) := by
      intro e₁
      simp only [decodeUserContent, decodeContent, decodeParts, hpart]
      exact ⟨_, rfl⟩
    obtain ⟨e₂, he⟩ := hcontent (e.insert "role" (.ofStr "user"))
    simp only [chatWireMessage, decodeMessageArm, decodeNamed, he]
    exact ⟨_, rfl⟩
  | toolResult callId output =>
    have hne := validateNonEmpty_of_ne (h.callId callId output hi)
    simp only [chatWireMessage, decodeMessageArm, decodeToolMessage, hne]
    exact ⟨_, rfl⟩

theorem decodeMessagesFrom_chatWireMessage (h : Wellformed P request)
    (hi : ∀ item ∈ items, item ∈ request.input) :
    ∀ (index : Nat) (input : List InputItem), ∃ records,
      decodeMessagesFrom P (items.map chatWireMessage) index input =
        .ok (input ++ items.map chatAgain, records) := by
  induction items with
  | nil => exact fun index input => ⟨[], by rw [map_nil, map_nil, append_nil]; rfl⟩
  | cons item items ih =>
    intro index input
    obtain ⟨e', he⟩ := decodeMessageArm_chatWireMessage h (hi item mem_cons_self) input
      (EntryMap.empty.insert "index" (.ofNat index))
    have hmessage : ∃ record, decodeMessage P (chatWireMessage item) index input =
        .ok (input ++ [chatAgain item], record) := by
      unfold decodeMessage
      rw [he]
      exact ⟨_, rfl⟩
    obtain ⟨record, hr⟩ := hmessage
    obtain ⟨more, hm⟩ := ih (fun x hx => hi x (mem_cons_of_mem _ hx)) (index + 1)
      (input ++ [chatAgain item])
    refine ⟨record :: more, ?_⟩
    rw [map_cons, decodeMessagesFrom, hr]
    change (decodeMessagesFrom P (items.map chatWireMessage) (index + 1) (input ++ [chatAgain item])
      >>= _) = _
    rw [hm, append_assoc]
    rfl

/-- A tool after it went out and came in again. -/
def toolAgain (tool : ToolDefinition) : ToolDefinition := { tool with extensions := .empty }

theorem decodeChatTool_chatWireTool (h : Wellformed P request) {tool : ToolDefinition}
    (ht : tool ∈ request.tools) : decodeChatTool (chatWireTool tool) = .ok (toolAgain tool) := by
  have hschema := h.schema tool ht
  have hpresent : (chatWireTool tool).function.parameters = some tool.inputSchema :=
    present_of_isObject hschema
  unfold decodeChatTool
  rw [hpresent]
  dsimp only [getD_some]
  rw [requireThat_eq_ok (u := ()) |>.mpr (by
    simpa [chatWireTool, h.name tool ht] using hschema)]
  rfl

/-- The Chat decoder takes tools whose names differ, and no others. -/
theorem decodeChatToolsFrom_chatWireTool_iff (h : Wellformed P request)
    {tools again : List ToolDefinition} (ht : ∀ tool ∈ tools, tool ∈ request.tools)
    (names : List String) :
    decodeChatToolsFrom names (tools.map chatWireTool) = .ok again ↔
      again = tools.map toolAgain ∧ (tools.map name).Nodup ∧
        ∀ tool ∈ tools, tool.name ∉ names := by
  induction tools generalizing names again with
  | nil =>
    constructor
    · intro hok
      cases hok
      simp
    · rintro ⟨rfl, -⟩
      rfl
  | cons tool tools ih =>
    have htool := decodeChatTool_chatWireTool h (ht tool mem_cons_self)
    have hrest := fun {more} names => @ih more (fun x hx => ht x (mem_cons_of_mem _ hx)) names
    simp only [map_cons, decodeChatToolsFrom, htool, ok_bind, do_ok, checks_ok, hrest, nodup_cons,
      forall_mem_cons]
    constructor
    · rintro ⟨hname, _, ⟨rfl, hnd, hfresh⟩, rfl⟩
      simp only [mem_cons, not_or] at hfresh
      refine ⟨rfl, ⟨?_, hnd⟩, by simpa [toolAgain] using hname, fun other hother =>
        (hfresh other hother).2⟩
      intro hmem
      obtain ⟨other, hother, heq⟩ := mem_map.mp hmem
      exact (hfresh other hother).1 heq
    · rintro ⟨rfl, ⟨hdiffers, hnd⟩, hname, hfresh⟩
      refine ⟨by simpa [toolAgain] using hname, _, ⟨rfl, hnd, fun other hother => ?_⟩, rfl⟩
      rw [mem_cons, not_or]
      exact ⟨fun heq => hdiffers (heq ▸ mem_map_of_mem hother), hfresh other hother⟩

theorem effort_of_checkEffort {options : ReasoningOptions} (h : checkEffort request = .ok ())
    (hr : request.reasoning = some options) : ∃ effort, options.effort = some effort ∧
    effort ≠ "" := by
  unfold checkEffort at h
  rw [hr] at h
  dsimp only at h
  cases he : options.effort with
  | none => rw [he] at h; cases h
  | some effort =>
    rw [he] at h
    exact ⟨effort, rfl, ne_empty_of_validateIdentifier h⟩

/-- The Chat decoder accepts a body only if the names of the tools differ. -/
theorem names_of_chat_accepts {again : CanonicalRequest} (h : Wellformed P request)
    (hok : decodeChatWire P requestId (chatWire request) = .ok again) :
    (request.tools.map name).Nodup :=
  ((decodeChatToolsFrom_chatWireTool_iff h (fun _ ht => ht) []).mp
    (decodeChatWire_ok hok).tools).2.1

/-- A Chat body in which the names of the tools differ is accepted and says the same. -/
theorem chat_accepts (h : Wellformed P request) (hinput : request.input ≠ [])
    (heffort : checkEffort request = .ok ()) (hnd : (request.tools.map name).Nodup)
    (requestId : String) :
    ∃ again, decodeChatWire P requestId (chatWire request) = .ok again ∧
    SameRequest request again := by
  obtain ⟨records, hmessages⟩ := decodeMessagesFrom_chatWireMessage h
    (fun _ (hi : _ ∈ request.input) => hi) 0 []
  have htools : decodeChatTools (chatWire request).tools = .ok (request.tools.map toolAgain) :=
    (decodeChatToolsFrom_chatWireTool_iff h (fun _ ht => ht) []).mpr ⟨rfl, hnd, by simp⟩
  have hmodel := validateNonEmpty_of_ne h.model
  have hstream : requireThat (!((chatWire request).messages.isEmpty
      || ((chatWire request).streamOptions.isSome && !(chatWire request).stream))) = .ok () := by
    refine requireThat_eq_ok.mpr ?_
    cases hs : request.stream <;> simp [chatWire, hinput, hs]
  have hmessages : decodeMessages P (chatWire request).messages =
      .ok (request.input.map chatAgain, records) := hmessages
  have hreasoning : ∃ reasoning, chatReasoning (chatWire request).reasoningEffort =
      .ok reasoning := by
    change ∃ reasoning, chatReasoning (request.reasoning.bind ReasoningOptions.effort) =
      .ok reasoning
    cases hr : request.reasoning with
    | none => exact ⟨_, rfl⟩
    | some options =>
      obtain ⟨effort, he, hne⟩ := effort_of_checkEffort heffort hr
      rw [bind_some, he, chatReasoning, validateNonEmpty_of_ne hne]
      exact ⟨_, rfl⟩
  obtain ⟨reasoning, hreasoning⟩ := hreasoning
  have hok : decodeChatWire P requestId (chatWire request) = .ok {
      requestId
      model := request.model
      threadKey := none
      input := request.input.map chatAgain
      tools := request.tools.map toolAgain
      stream := request.stream
      reasoning
      extensions := chatExtensions (chatWire request) records } := by
    unfold decodeChatWire
    rw [show (chatWire request).model = request.model from rfl, hmodel, hstream, hmessages, htools,
      hreasoning]
    rfl
  refine ⟨_, hok, rfl, rfl, ?_, ?_⟩
  · simp [Function.comp_def, face_chatAgain]
  · simp [Function.comp_def, face, toolAgain]

end Wokcore.Protocols
