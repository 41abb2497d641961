import Wokcore.Protocols.Inbound.Chat
import Wokcore.Protocols.Inbound.Responses
import Wokcore.Protocols.Inbound.Anthropic

/-!
# Which input items a request becomes

Each decoder cuts the messages of its wire type into one flat list of input items. The relations of
this module say which items one message (or one input item, or one block) gives, with no regard to
the records the decoders keep beside them; the theorems say that a decoded request has the items of
its messages, one group after the other.
-/

set_option autoImplicit false

namespace Wokcore.Protocols.Inbound

open Lib Outcome Wokcore.Core Result List

variable {items input input' : List InputItem} {P : Parsers} {e e' extra : Extensions}
  {records records' : List Value} {limits : AnthropicInboundLimits} {wire : AnthropicRequest}
  {requestId : String} {request : CanonicalRequest} {item : InputItem} {place : ContentPlace}
  {messages : List AnthropicMessage} {index n : Nat} {α : Type} {R : α → InputItem → Prop}
  {content : AnthropicContent} {message : ChatMessage}
  {decodePart : Nat → α → Result (InputItem × List Value)} {name : Option String}
  {block : AnthropicContentBlock} {json : Bytes}

/-! ## Chat -/

/-- The items of a content whose parts give the items `R` allows. -/
def ContentItems {α : Type} (R : α → InputItem → Prop) (items : List InputItem) :
    ChatContent α → Prop
  | .text text => items = [.text text]
  | .parts parts => parts ≠ [] ∧ Forall₂ R parts items

def TextPartItem (part : ChatTextPart) (item : InputItem) : Prop := item = .text part.text

def UserPartItem (P : Parsers) (item : InputItem) : ChatUserPart → Prop
  | .text text _ => item = .text text
  | .image imageUrl _ =>
    ∃ url, decodeImageUrl P imageUrl.url = .ok url ∧ item = .imageUrl url imageUrl.detail

def ChatAssistantPart.words : ChatAssistantPart → String
  | .text words _ => words
  | .refusal words _ => words

def AssistantPartItem (part : ChatAssistantPart) (item : InputItem) : Prop :=
    item = .text part.words

/-- The items of one message. -/
inductive MessageItems (P : Parsers) : ChatMessage → List InputItem → Prop
  | system {content : ChatTextContent} {name : Option String} {extra : Extensions}
      {items : List InputItem} (h : ContentItems TextPartItem items content) :
      MessageItems P (.system content name extra) items
  | developer {content : ChatTextContent} {name : Option String} {extra : Extensions}
      {items : List InputItem} (h : ContentItems TextPartItem items content) :
      MessageItems P (.developer content name extra) items
  | user {content : ChatUserContent} {name : Option String} {extra : Extensions}
      {items : List InputItem}
      (h : ContentItems (fun part item => UserPartItem P item part) items content) :
      MessageItems P (.user content name extra) items
  | assistant {content : Option ChatAssistantContent} {toolCalls : List ChatToolCall}
      {name refusal : Option String} {extra : Extensions} {items : List InputItem}
      (h : ∀ c ∈ content, ContentItems AssistantPartItem items c)
      (hnone : content = none → items = []) :
      MessageItems P (.assistant content toolCalls name refusal extra)
        (items ++ refusal.toList.map .text)
  | tool {content : ChatTextContent} {toolCallId form : String} {extra : Extensions}
      {output : Value} (hid : toolCallId ≠ "") (h : toolContentValue content = .ok (form, output)) :
      MessageItems P (.tool content toolCallId extra) [.toolResult toolCallId output]

/-- An item of a content is a text, or one that a part gives. -/
theorem of_mem_contentItems {content : ChatContent α} (h : ContentItems R items content)
    (hi : item ∈ items) :
    (∃ text, item = .text text) ∨ ∃ part, R part item := by
  cases content with
  | text text =>
    rw [ContentItems] at h
    exact .inl ⟨text, by simpa [h] using hi⟩
  | parts parts =>
    obtain ⟨part, -, hp⟩ := of_mem_right h.2 hi
    exact .inr ⟨part, hp⟩

/-- Where an item comes from: it is a text, an image whose URL `image` knows, or a tool result that
    `tool` knows. -/
def Origin (image : Url → Prop) (tool : String → Value → Prop) : InputItem → Prop
  | .text _ => True
  | .imageUrl url _ => image url
  | .toolResult callId output => tool callId output

/-- An image of a message has been decoded, and a tool result comes from a tool message. -/
theorem MessageItems.origin (h : MessageItems P message items) (hi : item ∈ items) :
    Origin (fun url => ∃ value, decodeImageUrl P value = .ok url)
      (fun callId output => ∃ content extra form, message = .tool content callId extra ∧
        callId ≠ "" ∧ toolContentValue content = .ok (form, output)) item := by
  cases h with
  | system h | developer h =>
    obtain ⟨_, rfl⟩ | ⟨_, rfl⟩ := of_mem_contentItems h hi <;> trivial
  | user h =>
    obtain ⟨_, rfl⟩ | ⟨part, h⟩ := of_mem_contentItems h hi
    · trivial
    · cases part with
      | text text extra =>
        obtain rfl := h
        trivial
      | image imageUrl extra =>
        obtain ⟨_, hu, rfl⟩ := h
        exact ⟨_, hu⟩
  | @assistant content _ _ refusal _ _ h hnone =>
    rcases mem_append.mp hi with hi | hi
    · cases content with
      | none => exact absurd (hnone rfl ▸ hi) (by simp)
      | some c => obtain ⟨_, rfl⟩ | ⟨_, rfl⟩ := of_mem_contentItems (h c rfl) hi <;> trivial
    · obtain ⟨_, -, rfl⟩ := mem_map.mp hi
      trivial
  | tool hid h =>
    cases mem_singleton.mp hi
    exact ⟨_, _, _, rfl, hid, h⟩

theorem decodeParts_items (hR : ∀ i part item ex, decodePart i part = .ok (item, ex) → R part item)
    {parts : List α} {i : Nat}
    (h : decodeParts decodePart i parts = .ok (items, records)) : Forall₂ R parts items := by
  induction parts generalizing i items records with
  | nil =>
    cases h
    exact .nil
  | cons part parts ih =>
    simp only [decodeParts, do_ok, Prod.exists, Prod.mk.injEq] at h
    obtain ⟨item, ex, hp, more, exs, hps, rfl, -⟩ := h
    exact .cons (hR _ _ _ _ hp) (ih hps)

theorem decodeContent_items (hR : ∀ i part item ex, decodePart i part = .ok (item, ex) →
    R part item) {content : ChatContent α}
    (h : decodeContent decodePart content input e = .ok (input', e')) :
    ∃ items, input' = input ++ items ∧ ContentItems R items content := by
  cases content with
  | text text =>
    cases h
    exact ⟨_, rfl, rfl⟩
  | parts parts =>
    simp only [decodeContent, do_ok, checks_ok, Prod.exists, Prod.mk.injEq] at h
    obtain ⟨hne, items, extras, hp, rfl, -⟩ := h
    exact ⟨items, rfl, by simpa using hne, decodeParts_items hR hp⟩

theorem decodeTextContent_items {content : ChatTextContent}
    (h : decodeTextContent content input e = .ok (input', e')) :
    ∃ items, input' = input ++ items ∧ ContentItems TextPartItem items content := by
  refine decodeContent_items (fun i part item ex hp => ?_) h
  cases hp
  rfl

theorem decodeUserContent_items {content : ChatUserContent}
    (h : decodeUserContent P content input e = .ok (input', e')) :
    ∃ items, input' = input ++ items ∧
      ContentItems (fun part item => UserPartItem P item part) items content := by
  refine decodeContent_items (fun i part item ex hp => ?_) h
  cases part with
  | text text extra => cases hp; rfl
  | image imageUrl extra =>
    obtain ⟨url, hu, hp⟩ := do_eq_ok.mp hp
    cases hp
    exact ⟨url, hu, rfl⟩

theorem decodeAssistantContent_items {content : ChatAssistantContent}
    (h : decodeAssistantContent content input e = .ok (input', e')) :
    ∃ items, input' = input ++ items ∧ ContentItems AssistantPartItem items content := by
  refine decodeContent_items (fun i part item ex hp => ?_) h
  cases part <;> cases hp <;> rfl

theorem decodeNamed_items {role : String} {content : Extensions → Extended}
    (h : decodeNamed role content name extra e = .ok (input', e')) :
    ∃ e₁ e₂, content e₁ = .ok (input', e₂) := by
  obtain ⟨⟨input, e₂⟩, hc, h⟩ := do_eq_ok.mp h
  obtain ⟨_, -, h⟩ := do_eq_ok.mp h
  cases h
  exact ⟨_, _, hc⟩

theorem decodeAssistant_items {content : Option ChatAssistantContent}
    {toolCalls : List ChatToolCall} {refusal : Option String}
    (h : decodeAssistant content toolCalls name refusal extra input e = .ok (input', e')) :
    ∃ items, input' = input ++ items ∧
      MessageItems P (.assistant content toolCalls name refusal extra) items := by
  simp only [decodeAssistant, do_ok, Prod.exists, Prod.mk.injEq] at h
  obtain ⟨input₁, e₁, hc, input₂, e₂, hr, -, e₃, -, e₄, -, rfl, -⟩ := h
  have hcontent : ∃ items, input₁ = input ++ items ∧
      (∀ c ∈ content, ContentItems AssistantPartItem items c) ∧ (content = none → items = []) := by
    cases content with
    | none => cases hc; exact ⟨[], by simp⟩
    | some c =>
      obtain ⟨items, hi, hp⟩ := decodeAssistantContent_items hc
      exact ⟨items, hi, by simpa using hp, by simp⟩
  obtain ⟨items, rfl, hp, hnone⟩ := hcontent
  have hrefusal : input₂ = input ++ items ++ refusal.toList.map .text := by
    cases refusal with
    | none => cases hr; simp
    | some r =>
      obtain ⟨_, -, hr⟩ := do_eq_ok.mp hr
      cases hr
      rfl
  exact ⟨_, by rw [hrefusal, append_assoc], .assistant hp hnone⟩

/-- A decoded message adds its items to the input. -/
theorem decodeMessageArm_items (h : decodeMessageArm P message input e = .ok (input', e')) :
    ∃ items, input' = input ++ items ∧ MessageItems P message items := by
  cases message with
  | system content name extra | developer content name extra =>
    obtain ⟨_, _, hc⟩ := decodeNamed_items h
    obtain ⟨items, hi, hp⟩ := decodeTextContent_items hc
    exact ⟨items, hi, by constructor; exact hp⟩
  | user content name extra =>
    obtain ⟨_, _, hc⟩ := decodeNamed_items h
    obtain ⟨items, hi, hp⟩ := decodeUserContent_items hc
    exact ⟨items, hi, .user hp⟩
  | assistant content toolCalls name refusal extra => exact decodeAssistant_items h
  | tool content toolCallId extra =>
    simp only [decodeMessageArm, decodeToolMessage, validateNonEmpty, do_ok, checks_ok, Prod.exists,
      Prod.mk.injEq] at h
    obtain ⟨hid, form, output, hc, rfl, -⟩ := h
    exact ⟨_, rfl, .tool (by simpa using hid) hc⟩

theorem decodeMessagesFrom_items {messages : List ChatMessage}
    (h : decodeMessagesFrom P messages index input = .ok (input', records)) :
    ∃ groups, Forall₂ (MessageItems P) messages groups ∧ input' = input ++ groups.flatten := by
  induction messages generalizing index input input' records with
  | nil =>
    cases h
    exact ⟨[], .nil, by simp⟩
  | cons message messages ih =>
    simp only [decodeMessagesFrom, decodeMessage, do_ok, Prod.exists, Prod.mk.injEq] at h
    obtain ⟨_, _, ⟨_, _, ha, rfl, -⟩, _, _, hms, rfl, -⟩ := h
    obtain ⟨items, rfl, hitems⟩ := decodeMessageArm_items ha
    obtain ⟨groups, hg, rfl⟩ := ih hms
    exact ⟨items :: groups, .cons hitems hg, by simp⟩

/-! ## Responses -/

def ResponsesPartItem (P : Parsers) (item : InputItem) : ResponsesContentPart → Prop
  | .text text _ => item = .text text
  | .image imageUrl detail _ =>
    ∃ url, decodeImageUrl P imageUrl = .ok url ∧ item = .imageUrl url detail

def MessageContentItems (P : Parsers) (items : List InputItem) : ResponsesMessageContent → Prop
  | .text text => items = [.text text]
  | .parts parts => Forall₂ (fun part item => ResponsesPartItem P item part) parts items

/-- The items of one input item. -/
def InputItemItems (P : Parsers) (items : List InputItem) : ResponsesInputItem → Prop
  | .message message => MessageContentItems P items message.content
  | .text text => text.kind = "input_text" ∧ items = [.text text.text]
  | .image image => image.kind = "input_image" ∧
      ∃ url, decodeImageUrl P image.imageUrl = .ok url ∧ items = [.imageUrl url image.detail]
  | .toolResult result => result.kind = "function_call_output" ∧ result.callId ≠ "" ∧
      items = [.toolResult result.callId result.output]

/-- The items of an input. -/
def ResponsesInputItems (P : Parsers) (items : List InputItem) : ResponsesInput → Prop
  | .text text => items = [.text text]
  | .items inputs => ∃ groups,
      Forall₂ (fun input group => InputItemItems P group input) inputs groups ∧
        items = groups.flatten

/-- An image of an input item has been decoded, and a tool result is an input item. -/
theorem InputItemItems.origin {input : ResponsesInputItem} (h : InputItemItems P items input)
    (hi : item ∈ items) :
    Origin (fun url => ∃ value, decodeImageUrl P value = .ok url)
      (fun callId output => ∃ result, input = .toolResult result ∧ callId = result.callId ∧
        callId ≠ "" ∧ output = result.output) item := by
  cases input with
  | message message =>
    rw [InputItemItems] at h
    cases hc : message.content with
    | text text =>
      rw [hc, MessageContentItems] at h
      cases mem_singleton.mp (h ▸ hi)
      trivial
    | parts parts =>
      rw [hc] at h
      obtain ⟨part, -, hp⟩ := of_mem_right h hi
      cases part with
      | text text extra =>
        obtain rfl := hp
        trivial
      | image imageUrl detail extra =>
        obtain ⟨_, hu, rfl⟩ := hp
        exact ⟨_, hu⟩
  | text text =>
    cases mem_singleton.mp (h.2 ▸ hi)
    trivial
  | image image =>
    obtain ⟨-, _, hu, rfl⟩ := h
    cases mem_singleton.mp hi
    exact ⟨_, hu⟩
  | toolResult result =>
    obtain ⟨-, hid, rfl⟩ := h
    cases mem_singleton.mp hi
    exact ⟨result, rfl, rfl, hid, rfl⟩

theorem decodeResponsesParts_items {parts : List ResponsesContentPart}
    (h : decodeResponsesParts P index parts = .ok (items, records)) :
    Forall₂ (fun part item => ResponsesPartItem P item part) parts items := by
  induction parts generalizing index items records with
  | nil =>
    cases h
    exact .nil
  | cons part parts ih =>
    simp only [decodeResponsesParts, do_ok, Prod.exists, Prod.mk.injEq] at h
    obtain ⟨item, extra, hp, more, _, hps, rfl, -⟩ := h
    refine .cons ?_ (ih hps)
    cases part with
    | text text extra => cases hp; rfl
    | image imageUrl detail extra =>
      obtain ⟨url, hu, hp⟩ := do_eq_ok.mp hp
      cases hp
      exact ⟨url, hu, rfl⟩

theorem decodeInputItem_items {input : ResponsesInputItem}
    (h : decodeInputItem P index input = .ok (items, records)) : InputItemItems P items input := by
  cases input with
  | message message =>
    obtain ⟨_, -, h⟩ := do_eq_ok.mp h
    obtain ⟨⟨more, records'⟩, hc, h⟩ := do_eq_ok.mp h
    cases h
    change MessageContentItems P items message.content
    cases hm : message.content with
    | text text => rw [hm] at hc; cases hc; rfl
    | parts parts => rw [hm] at hc; exact decodeResponsesParts_items hc
  | text text =>
    obtain ⟨_, hk, h⟩ := do_eq_ok.mp h
    cases h
    exact ⟨by simpa using hk, rfl⟩
  | image image =>
    obtain ⟨_, hk, h⟩ := do_eq_ok.mp h
    obtain ⟨url, hu, h⟩ := do_eq_ok.mp h
    cases h
    exact ⟨by simpa using hk, url, hu, rfl⟩
  | toolResult result =>
    obtain ⟨_, hk, h⟩ := do_eq_ok.mp h
    cases h
    have hk := requireThat_eq_ok.mp hk
    simp only [Bool.and_eq_true, beq_iff_eq, Bool.not_eq_true', String.isEmpty_eq_false_iff] at hk
    exact ⟨hk.1, hk.2, rfl⟩

theorem decodeInput_items {input : ResponsesInput}
    (h : decodeInput P input = .ok (items, records)) :
    ResponsesInputItems P items input := by
  cases input with
  | text text => cases h; rfl
  | items inputs =>
    change decodeInputItems P 0 inputs = _ at h
    generalize 0 = index at h
    induction inputs generalizing index items records with
    | nil =>
      cases h
      exact ⟨[], .nil, rfl⟩
    | cons input inputs ih =>
      simp only [decodeInputItems, do_ok, Prod.exists, Prod.mk.injEq] at h
      obtain ⟨group, _, hi, more, _, his, rfl, -⟩ := h
      obtain ⟨groups, hg, rfl⟩ := ih _ his
      exact ⟨group :: groups, .cons (decodeInputItem_items hi) hg, by simp⟩

/-! ## Anthropic -/

/-- The items of one block. -/
def BlockItems (P : Parsers) (items : List InputItem) : AnthropicContentBlock → Prop
  | .known (.text text _) => items = [.text text]
  | .known (.image source _) => ∃ url, sourceUrl P source = .ok url ∧ items = [.imageUrl url none]
  | .known (.toolResult toolUseId content _ _) =>
    items = [.toolResult toolUseId (content.getD (.ofStr ""))]
  | _ => items = []

/-- The items of a content. -/
def AnthropicContentItems (P : Parsers) (items : List InputItem) : AnthropicContent → Prop
  | .text text => items = [.text text]
  | .blocks blocks => ∃ groups,
      Forall₂ (fun block group => BlockItems P group block) blocks groups ∧ items = groups.flatten

/-- An image comes from a source, and a tool result is a block. -/
theorem BlockItems.origin (h : BlockItems P items block) (hi : item ∈ items) :
    Origin (fun url => ∃ source extra, block = .known (.image source extra) ∧
      sourceUrl P source = .ok url) (fun callId output => ∃ content isError extra,
        block = .known (.toolResult callId content isError extra) ∧ output = content.getD
        (.ofStr "")) item := by
  cases block with
  | unknown value => exact absurd (h ▸ hi) (by simp)
  | known block =>
    cases block with
    | toolResult toolUseId content isError extra =>
      cases mem_singleton.mp (h ▸ hi)
      exact ⟨content, isError, extra, rfl, rfl⟩
    | image source extra =>
      obtain ⟨_, hu, rfl⟩ := h
      cases mem_singleton.mp hi
      exact ⟨source, extra, rfl, hu⟩
    | text text extra =>
      cases mem_singleton.mp (h ▸ hi)
      trivial
    | _ =>
      exact absurd (h ▸ hi) (by simp)

theorem placedBlock_items {block : AnthropicKnownContentBlock}
    (h : placedBlock place index block = .ok (items, records)) : items = [] := by
  cases place with
  | none => cases h
  | some place => cases h; rfl

theorem extractBlock_items (h : extractBlock P place index block = .ok (items, records)) :
    BlockItems P items block := by
  cases block with
  | unknown value => cases h
  | known block =>
    cases block with
    | text | toolResult => cases h; rfl
    | image source extra =>
      obtain ⟨url, hu, h⟩ := do_eq_ok.mp h
      cases h
      exact ⟨url, hu, rfl⟩
    | document | toolUse | thinking | redactedThinking => exact placedBlock_items h

theorem extractBlocks_items {blocks : List AnthropicContentBlock}
    (h : extractBlocks P place index blocks = .ok (items, records)) :
    ∃ groups, Forall₂ (fun block group => BlockItems P group block) blocks groups ∧
      items = groups.flatten := by
  induction blocks generalizing index items records with
  | nil =>
    cases h
    exact ⟨[], .nil, rfl⟩
  | cons block blocks ih =>
    simp only [extractBlocks, do_ok, Prod.exists, Prod.mk.injEq] at h
    obtain ⟨group, _, hb, more, _, hbs, rfl, -⟩ := h
    obtain ⟨groups, hg, rfl⟩ := ih hbs
    exact ⟨group :: groups, .cons (extractBlock_items hb) hg, by simp⟩

theorem extractContent_items (h : extractContent P limits content place input records =
    .ok (input', records')) :
    ∃ items, input' = input ++ items ∧ AnthropicContentItems P items content := by
  obtain ⟨⟨items, more⟩, hp, h⟩ := do_eq_ok.mp h
  obtain ⟨_, -, h⟩ := do_eq_ok.mp h
  cases h
  refine ⟨items, rfl, ?_⟩
  cases content with
  | text text => cases hp; rfl
  | blocks blocks => exact extractBlocks_items hp

theorem extractMessages_items (h : extractMessages P limits index messages input records =
    .ok (input', records')) :
    ∃ groups, Forall₂ (fun (m : AnthropicMessage) group => AnthropicContentItems P group m.content)
      messages groups ∧ input' = input ++ groups.flatten := by
  induction messages generalizing index input records with
  | nil =>
    cases h
    exact ⟨[], .nil, by simp⟩
  | cons message messages ih =>
    obtain ⟨⟨input₁, records₁⟩, hm, h⟩ := do_eq_ok.mp h
    obtain ⟨items, rfl, hitems⟩ := extractContent_items hm
    obtain ⟨groups, hg, rfl⟩ := ih h
    exact ⟨items :: groups, .cons hitems hg, by simp⟩

/-- The contents of a request in the order they are taken apart: the system prompt first. -/
def AnthropicRequest.contents (wire : AnthropicRequest) : List AnthropicContent :=
  wire.system.toList ++ wire.messages.map AnthropicMessage.content

theorem extractRequest_items (h : extractRequest P limits wire = .ok (input, records)) :
    ∃ groups,
      Forall₂ (fun content group => AnthropicContentItems P group content) wire.contents groups ∧
        input = groups.flatten := by
  unfold extractRequest at h
  cases hs : wire.system with
  | none =>
    rw [hs] at h
    obtain ⟨groups, hg, rfl⟩ := extractMessages_items h
    refine ⟨groups, ?_, rfl⟩
    rw [AnthropicRequest.contents, hs]
    exact forall₂_map_left_iff.mpr hg
  | some system =>
    rw [hs] at h
    obtain ⟨⟨input₁, records₁⟩, hc, h⟩ := do_eq_ok.mp h
    obtain ⟨items, hin, hitems⟩ := extractContent_items hc
    obtain ⟨groups, hg, rfl⟩ := extractMessages_items h
    refine ⟨items :: groups, ?_, by rw [hin]; rfl⟩
    rw [AnthropicRequest.contents, hs]
    exact .cons hitems (forall₂_map_left_iff.mpr hg)

/-! ## Checked Anthropic requests -/

/-- What `validate_content` accepts. -/
def ContentValid (P : Parsers) (limits : AnthropicInboundLimits) (context : ContentContext) :
    AnthropicContent → Prop
  | .text _ => True
  | .blocks blocks => blocks ≠ [] ∧ ∀ block ∈ blocks, validateBlock P limits context block = .ok ()

/-- What `validate_request` accepts where the token limit is required. -/
structure AnthropicValid (P : Parsers) (limits : AnthropicInboundLimits) (wire : AnthropicRequest) :
    Prop where
  model : limits.validateIdentifier wire.model = .ok ()
  messages : wire.messages ≠ [] ∧ wire.messages.length ≤ limits.maxMessages
  maxTokens : ∃ n, wire.maxTokens = some n ∧ 0 < n
  systemContent : ∀ content ∈ wire.system, ContentValid P limits .system content
  messageContent : ∀ message ∈ wire.messages,
    ContentValid P limits message.role.context message.content
  tool : ∀ tool ∈ wire.tools, validateTool limits tool = .ok ()
  thinking : ∀ thinking ∈ wire.thinking, validateThinking thinking wire.maxTokens true = .ok ()

theorem validateContent_ok {context : ContentContext}
    (h : validateContent P limits content context = .ok n) :
    ContentValid P limits context content := by
  cases content with
  | text text => trivial
  | blocks blocks =>
    obtain ⟨_, hne, h⟩ := do_eq_ok.mp h
    obtain ⟨_, hb, -⟩ := do_eq_ok.mp h
    exact ⟨by simpa using hne, forM_eq_ok.mp hb⟩

theorem countBlocks_ok {count : Nat} (h : countBlocks P limits count messages = .ok n) :
    ∀ message ∈ messages, ContentValid P limits message.role.context message.content := by
  induction messages generalizing count with
  | nil => simp
  | cons first messages ih =>
    obtain ⟨blocks, hb, h⟩ := do_eq_ok.mp h
    exact forall_mem_cons.mpr ⟨validateContent_ok hb, ih h⟩

theorem validateBlocks_ok (h : validateBlocks P limits wire = .ok n) :
    (∀ content ∈ wire.system, ContentValid P limits .system content) ∧
      ∀ message ∈ wire.messages, ContentValid P limits message.role.context message.content := by
  unfold validateBlocks at h
  cases hs : wire.system with
  | none =>
    rw [hs] at h
    exact ⟨fun content hc => absurd hc (by simp), countBlocks_ok h⟩
  | some system =>
    rw [hs] at h
    obtain ⟨blocks, hb, h⟩ := do_eq_ok.mp h
    exact ⟨fun content hc => by cases hc; exact validateContent_ok hb, countBlocks_ok h⟩

theorem validateRequest_ok {u : Unit} (h : validateRequest P limits wire true = .ok u) :
    AnthropicValid P limits wire := by
  simp only [validateRequest, do_ok] at h
  obtain ⟨hm, hc, _, hb, -, ht, -, h⟩ := h
  rw [requireThat_eq_ok] at hc
  simp only [Bool.not_eq_true', Bool.or_eq_false_iff, decide_eq_false_iff_not, not_lt,
    Bool.true_and, Bool.not_true, Bool.false_and, and_true, isEmpty_eq_false_iff] at hc
  obtain ⟨hsystem, hmessages⟩ := validateBlocks_ok hb
  refine ⟨hm, hc.1, ?_, hsystem, hmessages, forM_eq_ok.mp ht, fun thinking hthinking => ?_⟩
  · cases hmax : wire.maxTokens with
    | none => rw [hmax] at hc; exact absurd hc.2 (by simp)
    | some n =>
      rw [hmax] at hc
      exact ⟨n, rfl, Nat.pos_of_ne_zero (by simpa using hc.2)⟩
  · rw [hthinking] at h
    exact h

/-! ## Whole requests -/

theorem decodeChatRequest_ok (h : decodeChatRequest P requestId json = .ok request) :
    ∃ document wire, fromSlice P.floats json = some document ∧
      readChatRequest document = some wire ∧ decodeChatWire P requestId wire = .ok request := by
  simp only [decodeChatRequest, readBody, do_eq_ok, checks_ok] at h
  obtain ⟨document, hd, wire, hw, h⟩ := h
  exact ⟨document, wire, hd, hw, h⟩

theorem decodeResponsesRequest_ok (h : decodeResponsesRequest P requestId json = .ok request) :
    ∃ document wire, fromSlice P.floats json = some document ∧
      readResponsesRequest document = some wire ∧ decodeResponsesWire P requestId wire =
        .ok request := by
  simp only [decodeResponsesRequest, readBody, do_eq_ok, checks_ok] at h
  obtain ⟨document, hd, wire, hw, h⟩ := h
  exact ⟨document, wire, hd, hw, h⟩

theorem decodeAnthropicMessage_ok (h : decodeAnthropicMessage P requestId json = .ok request) :
    ∃ document wire, fromSlice P.floats json = some document ∧
      readAnthropicRequest document = some wire ∧
      decodeAnthropicWire P .default true requestId document wire = .ok request := by
  obtain ⟨_, -, h⟩ := do_eq_ok.mp h
  obtain ⟨document, hd, h⟩ := do_eq_ok.mp h
  obtain ⟨wire, hw, h⟩ := do_eq_ok.mp h
  exact ⟨document, wire, orInvalid_eq_ok.mp hd, orInvalid_eq_ok.mp hw, h⟩

/-- What a decoded Chat request is made of. -/
structure ChatDecoded (P : Parsers) (wire : ChatRequest) (request : CanonicalRequest) : Prop where
  model : request.model = wire.model ∧ wire.model ≠ ""
  stream : request.stream = wire.stream
  input : ∃ groups, Forall₂ (MessageItems P) wire.messages groups ∧ request.input = groups.flatten
  tools : decodeChatTools wire.tools = .ok request.tools
  reasoning : chatReasoning wire.reasoningEffort = .ok request.reasoning

theorem decodeChatWire_ok {wire : ChatRequest} (h : decodeChatWire P requestId wire = .ok request) :
    ChatDecoded P wire request := by
  simp only [decodeChatWire, validateNonEmpty, do_ok, checks_ok, Prod.exists] at h
  obtain ⟨hm, -, input, records, hi, tools, ht, reasoning, hr, rfl⟩ := h
  exact ⟨⟨rfl, by simpa using hm⟩, rfl, decodeMessagesFrom_items hi, ht, hr⟩

/-- What a decoded Responses request is made of. -/
structure ResponsesDecoded (P : Parsers) (wire : ResponsesRequest) (request : CanonicalRequest) :
    Prop where
  model : request.model = wire.model ∧ wire.model ≠ ""
  stream : request.stream = wire.stream
  input : ResponsesInputItems P request.input wire.input
  tools : wire.tools.mapM decodeResponsesTool = .ok request.tools
  reasoning : request.reasoning = wire.reasoning.map fun r => ⟨r.effort, r.extra⟩

theorem decodeResponsesWire_ok {wire : ResponsesRequest}
    (h : decodeResponsesWire P requestId wire = .ok request) : ResponsesDecoded P wire request := by
  simp only [decodeResponsesWire, validateNonEmpty, do_ok, checks_ok, Prod.exists] at h
  obtain ⟨hm, input, records, hi, tools, ht, threadKey, -, rfl⟩ := h
  exact ⟨⟨rfl, by simpa using hm⟩, rfl, decodeInput_items hi, ht, rfl⟩

/-- What a decoded Anthropic request is made of. -/
structure AnthropicDecoded (P : Parsers) (document : Json) (wire : AnthropicRequest)
    (request : CanonicalRequest) : Prop where
  valid : AnthropicValid P .default wire
  model : request.model = wire.model
  stream : request.stream = wire.stream
  input : ∃ groups,
    Forall₂ (fun content group => AnthropicContentItems P group content) wire.contents groups ∧
      request.input = groups.flatten
  tools : request.tools = wire.tools.filterMap clientTool
  reasoning : request.reasoning = wire.thinking.map anthropicReasoning
  extensions : ∃ records, anthropicExtensions .default document.toValue records =
    .ok request.extensions

theorem decodeAnthropicWire_ok {document : Json}
    (h : decodeAnthropicWire P .default true requestId document wire = .ok request) :
    AnthropicDecoded P document wire request := by
  simp only [decodeAnthropicWire, do_ok, Prod.exists] at h
  obtain ⟨hv, -, input, records, hi, extensions, he, rfl⟩ := h
  exact ⟨validateRequest_ok hv, rfl, rfl, extractRequest_items hi, rfl, rfl, records, he⟩

end Wokcore.Protocols.Inbound
