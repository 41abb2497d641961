import Wokcore.Protocols.Nesting
import Wokcore.Lib.Json.Size
import Wokcore.Lib.Merge

/-!
# Who said what

A request body is read as a conversation: a list of turns, each a speaker and a text, with
neighbouring turns of one speaker merged. The encoders write every text of the canonical request as
one of the user, and the output of a tool as its JSON text. `Carried` is what is left of a
conversation after that, and it decides when a route keeps it: exactly when the user said all of it.
-/

set_option autoImplicit false

namespace Wokcore.Protocols

open Lib Inbound Upstream Json List

variable {items : List InputItem} {P : Parsers} {request : CanonicalRequest}
    {content : AnthropicContent}

inductive Speaker where
  | system
  | developer
  | user
  | assistant
  | tool
deriving DecidableEq, Repr

abbrev Turn := Speaker × String

/-! ## Conversations -/

section Chat

/-- The texts of a content, given those of a part. -/
def contentTexts {α : Type} (partTexts : α → List String) : ChatContent α → List String
  | .text text => [text]
  | .parts parts => parts.flatMap partTexts

def textPartTexts (part : ChatTextPart) : List String := [part.text]

def userPartTexts : ChatUserPart → List String
  | .text text _ => [text]
  | .image _ _ => []

def assistantPartTexts (part : ChatAssistantPart) : List String := [part.words]

/-- The texts of an assistant message; a refusal is one of them. -/
def assistantTexts (content : Option ChatAssistantContent) (refusal : Option String) :
    List String :=
  content.toList.flatMap (contentTexts assistantPartTexts) ++ refusal.toList

def chatMessageTurns : ChatMessage → List Turn
  | .system content _ _ => (contentTexts textPartTexts content).map (.system, ·)
  | .developer content _ _ => (contentTexts textPartTexts content).map (.developer, ·)
  | .user content _ _ => (contentTexts userPartTexts content).map (.user, ·)
  | .assistant content _ _ refusal _ => (assistantTexts content refusal).map (.assistant, ·)
  | .tool content _ _ => (contentTexts textPartTexts content).map (.tool, ·)

def chatTurns (wire : ChatRequest) : List Turn := wire.messages.flatMap chatMessageTurns

end Chat

section Responses

def ResponsesRole.speaker : ResponsesRole → Speaker
  | .user => .user
  | .assistant => .assistant
  | .system => .system
  | .developer => .developer

def responsesPartTexts : ResponsesContentPart → List String
  | .text text _ => [text]
  | .image _ _ _ => []

def messageContentTexts : ResponsesMessageContent → List String
  | .text text => [text]
  | .parts parts => parts.flatMap responsesPartTexts

/-- A bare text is one of the user; the output of a function is said by nobody. -/
def responsesItemTurns : ResponsesInputItem → List Turn
  | .message message =>
    (messageContentTexts message.content).map (ResponsesRole.speaker message.role, ·)
  | .text text => [(.user, text.text)]
  | .image _ => []
  | .toolResult _ => []

def responsesTurns (wire : ResponsesRequest) : List Turn :=
  match wire.input with
  | .text text => [(.user, text)]
  | .items items => items.flatMap responsesItemTurns

end Responses

section Anthropic

def blockTexts : AnthropicContentBlock → List String
  | .known (.text text _) => [text]
  | _ => []

def anthropicContentTexts : AnthropicContent → List String
  | .text text => [text]
  | .blocks blocks => blocks.flatMap blockTexts

def AnthropicRole.speaker : AnthropicRole → Speaker
  | .user => .user
  | .assistant => .assistant

/-- The system prompt is said first. -/
def anthropicTurns (wire : AnthropicRequest) : List Turn :=
  (wire.system.toList.flatMap anthropicContentTexts).map (.system, ·)
    ++ wire.messages.flatMap fun message =>
      (anthropicContentTexts message.content).map (AnthropicRole.speaker message.role, ·)

end Anthropic

namespace ClientProtocol

/-- The turns of a document of the protocol. -/
def turns (document : Json) : ClientProtocol → Option (List Turn)
  | .chat => (readChatRequest document).map chatTurns
  | .responses => (readResponsesRequest document).map responsesTurns
  | .anthropic => (readAnthropicRequest document).map anthropicTurns

/-- The turns of a body, with numbers read by `F`. -/
def bodyTurns (F : FloatReader) (body : Bytes) (p : ClientProtocol) : Option (List Turn) :=
  (fromSlice F body).bind p.turns

/-- The conversation of a body: its turns, neighbours of one speaker merged. -/
def conversation (F : FloatReader) (body : Bytes) (p : ClientProtocol) : Option (List Turn) :=
  (p.bodyTurns F body).map (mergeAdjacent (· ++ ·))

end ClientProtocol

/-! ## What is left of a conversation -/

/-- How much the tools said. -/
abbrev toolLength (turns : List Turn) : Nat := sizeAt String.length .tool turns

/-- `sent` is what an encoder makes of `said`: where the user said everything it is the same, nobody
    but the user and the tools speaks, and what a tool said has become longer. -/
structure Carried (said sent : List Turn) : Prop where
  kept : (∀ t ∈ said, t.1 = .user) → sent = said
  speaker : ∀ t ∈ sent, t.1 = .user ∨ t.1 = .tool
  length : toolLength said ≤ toolLength sent
  longer : (∃ t ∈ said, t.1 = .tool) → toolLength said < toolLength sent

namespace Carried

theorem nil : Carried [] [] := ⟨fun _ => rfl, fun _ h => absurd h (by simp), le_rfl, fun h => by
  simp at h⟩

theorem append {a b c d : List Turn} (h₁ : Carried a b) (h₂ : Carried c d) : Carried (a ++ c)
    (b ++ d) where
  kept h := by
    rw [h₁.kept fun t ht => h t (mem_append_left c ht),
      h₂.kept fun t ht => h t (mem_append_right a ht)]
  speaker t ht := by
    rcases mem_append.mp ht with ht | ht
    · exact h₁.speaker t ht
    · exact h₂.speaker t ht
  length := by
    simp only [toolLength, sizeAt_append]
    exact Nat.add_le_add h₁.length h₂.length
  longer := by
    rintro ⟨t, ht, htool⟩
    simp only [toolLength, sizeAt_append]
    rcases mem_append.mp ht with ht | ht
    · exact Nat.add_lt_add_of_lt_of_le (h₁.longer ⟨t, ht, htool⟩) h₂.length
    · exact Nat.add_lt_add_of_le_of_lt h₁.length (h₂.longer ⟨t, ht, htool⟩)

theorem toolLength_of_forall {turns : List Turn} (h : ∀ t ∈ turns, t.1 ≠ .tool) :
    toolLength turns = 0 := by
  induction turns with
  | nil => rfl
  | cons t turns ih =>
    rw [toolLength, sizeAt_cons, if_neg (h t mem_cons_self)]
    exact (Nat.zero_add _).trans (ih fun u hu => h u (mem_cons_of_mem _ hu))

/-- Texts of a speaker that is no tool, sent as the user's. -/
theorem texts {speaker : Speaker} (hs : speaker ≠ .tool) (texts : List String) :
    Carried (texts.map (speaker, ·)) (texts.map (.user, ·)) where
  kept h := by
    cases texts with
    | nil => rfl
    | cons text texts =>
      have : speaker = .user := h (speaker, text) mem_cons_self
      rw [this]
  speaker t ht := by
    obtain ⟨text, -, rfl⟩ := mem_map.mp ht
    exact .inl rfl
  length := by
    rw [toolLength_of_forall fun t ht => by obtain ⟨text, -, rfl⟩ := mem_map.mp ht; exact hs]
    exact Nat.zero_le _
  longer := by
    rintro ⟨t, ht, htool⟩
    obtain ⟨text, -, rfl⟩ := mem_map.mp ht
    exact absurd htool hs

theorem toolLength_tool (texts : List String) :
    toolLength (texts.map (.tool, ·)) = (texts.map String.length).sum := by
  induction texts with
  | nil => rfl
  | cons text texts ih => simpa using ih

/-- Texts of a tool, sent as one longer text. -/
theorem toolText {texts : List String} (hne : texts ≠ []) {text : String}
    (h : (texts.map String.length).sum < text.length) : Carried (texts.map (.tool, ·))
    [(.tool, text)] where
  kept h := by
    cases texts with
    | nil => exact absurd rfl hne
    | cons first texts => exact absurd (h (.tool, first) mem_cons_self) (by simp)
  speaker t ht := by
    cases mem_singleton.mp ht
    exact .inr rfl
  length := by
    rw [toolLength_tool]
    exact le_of_lt (by simpa using h)
  longer _ := by
    rw [toolLength_tool]
    simpa using h

/-- One group after the other. -/
theorem flatMap {α : Type*} {R : α → List InputItem → Prop} {said : α → List Turn}
    {sent : InputItem → List Turn} (hR : ∀ a group, R a group → Carried (said a)
    (group.flatMap sent)) {as : List α} {groups : List (List InputItem)} (h : Forall₂ R as groups) :
    Carried (as.flatMap said) (groups.flatten.flatMap sent) := by
  induction h with
  | nil => exact nil
  | cons hag _ ih =>
    rw [flatMap_cons, flatten_cons, flatMap_append]
    exact (hR _ _ hag).append ih

/-- **What survives.** Merging keeps the speakers and how much each said, so the merged turns are
    the same only if all of them are the user's. -/
theorem merged_eq_iff {said sent : List Turn} (h : Carried said sent) :
    mergeAdjacent (· ++ ·) sent = mergeAdjacent (· ++ ·) said ↔ ∀ t ∈ said, t.1 = .user := by
  constructor
  · intro heq t ht
    have hlength : toolLength sent = toolLength said := by
      have hsent := sizeAt_mergeAdjacent Speaker.tool String.length_append sent
      have hsaid := sizeAt_mergeAdjacent Speaker.tool String.length_append said
      rw [toolLength, toolLength, ← hsent, ← hsaid, heq]
    -- the speaker of the turn also speaks in what is sent
    have hkey : t.1 ∈ sent.map Prod.fst := by
      rw [← mem_keys_mergeAdjacent (· ++ ·), heq, mem_keys_mergeAdjacent]
      exact mem_map_of_mem ht
    obtain ⟨u, hu, hut⟩ := mem_map.mp hkey
    rcases h.speaker u hu with huser | htool
    · rw [← hut, huser]
    · exact absurd hlength (Nat.ne_of_gt (h.longer ⟨t, ht, hut ▸ htool⟩))
  · intro huser
    rw [h.kept huser]

end Carried

/-- Texts of related lists, said by one speaker. -/
theorem flatMap_texts {α : Type*} {R : α → InputItem → Prop} {sent : InputItem → List Turn}
    {texts : α → List String} {speaker : Speaker}
    (hR : ∀ a item, R a item → sent item = (texts a).map (speaker, ·)) {as : List α}
    (h : Forall₂ R as items) : items.flatMap sent = (as.flatMap texts).map (speaker, ·) := by
  induction h with
  | nil => rfl
  | cons hp _ ih => rw [flatMap_cons, flatMap_cons, map_append, hR _ _ hp, ih]

/-! ## Chat -/

def chatItemTurns (item : InputItem) : List Turn := chatMessageTurns (chatWireMessage item)

theorem contentItems_turns {α : Type} {R : α → InputItem → Prop} {partTexts : α → List String}
    (hR : ∀ part item, R part item → chatItemTurns item = (partTexts part).map (.user, ·))
    {content : ChatContent α} (h : ContentItems R items content) :
    items.flatMap chatItemTurns = (contentTexts partTexts content).map (.user, ·) := by
  cases content with
  | text text =>
    rw [h]
    rfl
  | parts parts =>
    exact flatMap_texts hR h.2

theorem textPartItem_turns (part : ChatTextPart) (item : InputItem) (h : TextPartItem part item) :
    chatItemTurns item = (textPartTexts part).map (.user, ·) := by
  rw [h]
  rfl

theorem assistantPartItem_turns (part : ChatAssistantPart) (item : InputItem)
    (h : AssistantPartItem part item) :
    chatItemTurns item = (assistantPartTexts part).map (.user, ·) := by
  rw [h]
  rfl

theorem userPartItem_turns (part : ChatUserPart) (item : InputItem) (h : UserPartItem P item part) :
    chatItemTurns item = (userPartTexts part).map (.user, ·) := by
  cases part with
  | text text extra =>
    rw [h]
    rfl
  | image imageUrl extra =>
    obtain ⟨url, -, rfl⟩ := h
    rfl

theorem get?_extend (map : Extensions) {extra : Extensions} {key : String}
    (h : extra.get? key = none) :
    (extend map extra).get? key = map.get? key := by
  refine foldlRecOn (motive := fun m : Extensions => m.get? key = map.get? key) extra.entries
    _ rfl ?_
  intro m hm e he
  have hne : key ≠ e.1 := by simpa using lookup_eq_none_iff.mp h e he
  rw [EntryMap.get?_insert, if_neg hne, hm]

/-- The value of a text part is printed longer than its text. -/
theorem length_textPart (part : ChatTextPart) :
    part.text.length < (textPartValue part).tree.print.length := by
  have hget : (extend (.ofList [("type", .ofStr "text"), ("text", .ofStr part.text)])
      part.extra).get? "text" = some (.ofStr part.text) := by
    rw [get?_extend _ part.fresh]
    exact lookup_ofEntries (by simp) "text"
  have hmem := mem_map_of_mem (f := fun e : String × Value => (e.1, e.2.tree))
    (EntryMap.mem_entries_of_get? hget)
  rw [textPartValue, Value.object_tree]
  calc part.text.length
      ≤ (str part.text).print.length := le_trans (Nat.le_add_right _ 2) (length_print_str part.text)
    _ < _ := length_print_lt_obj hmem

/-- The output of a tool message is printed longer than the texts of the message together. -/
theorem length_toolContentValue {content : ChatTextContent} {form : String} {output : Value}
    (h : toolContentValue content = .ok (form, output)) :
    contentTexts textPartTexts content ≠ [] ∧
      ((contentTexts textPartTexts content).map String.length).sum < output.tree.print.length := by
  cases content with
  | text text =>
    cases h
    have := length_print_str text
    refine ⟨by simp [contentTexts], ?_⟩
    change (map String.length [text]).sum < (str text).print.length
    simp only [map_cons, map_nil, sum_cons, sum_nil]
    omega
  | parts parts =>
    obtain ⟨_, hne, h⟩ := Outcome.do_eq_ok.mp h
    cases h
    have hsum : ∀ ps : List ChatTextPart,
        ((contentTexts textPartTexts (.parts ps)).map String.length).sum ≤
          itemsLength ((ps.map textPartValue).map Value.tree) := by
      intro ps
      induction ps with
      | nil => exact le_rfl
      | cons part ps ih =>
        have := length_textPart part
        simp only [contentTexts, textPartTexts, itemsLength, map_cons, sum_cons,
          flatMap_cons, map_append, map_nil, sum_append, sum_nil] at ih ⊢
        omega
    constructor
    · intro hnil
      cases parts with
      | nil => simp at hne
      | cons part parts => simp [contentTexts, textPartTexts] at hnil
    · rw [Value.array_tree]
      have := length_print_arr ((parts.map textPartValue).map Value.tree)
      have := hsum parts
      omega

theorem messageItems_carried {message : ChatMessage} (h : MessageItems P message items) :
    Carried (chatMessageTurns message) (items.flatMap chatItemTurns) := by
  cases h with
  | system h | developer h =>
    rw [contentItems_turns textPartItem_turns h]
    exact .texts (by simp) _
  | user h =>
    rw [contentItems_turns userPartItem_turns h]
    exact .texts (by simp) _
  | @assistant content toolCalls name refusal extra items h hnone =>
    have hitems : items.flatMap chatItemTurns =
        (content.toList.flatMap (contentTexts assistantPartTexts)).map (.user, ·) := by
      cases content with
      | none => rw [hnone rfl]; rfl
      | some c =>
        rw [contentItems_turns assistantPartItem_turns (h c rfl)]
        simp
    have hrefusal : (refusal.toList.map InputItem.text).flatMap chatItemTurns =
        refusal.toList.map (.user, ·) := by
      cases refusal <;> rfl
    have hall : (items ++ refusal.toList.map InputItem.text).flatMap chatItemTurns =
        (assistantTexts content refusal).map (.user, ·) := by
      rw [flatMap_append, hitems, hrefusal, assistantTexts, map_append]
    rw [hall]
    exact .texts (by simp) _
  | tool hid h =>
    obtain ⟨hne, hlt⟩ := length_toolContentValue h
    exact .toolText hne (by simpa using hlt)

theorem chatDecoded_carried {wire : ChatRequest} (h : ChatDecoded P wire request) :
    Carried (chatTurns wire) (chatTurns (chatWire request)) := by
  obtain ⟨groups, hg, hinput⟩ := h.input
  have hsent : chatTurns (chatWire request) = groups.flatten.flatMap chatItemTurns := by
    rw [← hinput]
    exact flatMap_map ..
  rw [hsent]
  exact Carried.flatMap (fun _ _ hm => messageItems_carried hm) hg

/-! ## Responses -/

def responsesSentTurns (item : InputItem) : List Turn := responsesItemTurns (responsesWireItem item)

theorem responsesPartItem_turns (part : ResponsesContentPart) (item : InputItem)
    (h : ResponsesPartItem P item part) :
    responsesSentTurns item = (responsesPartTexts part).map (.user, ·) := by
  cases part with
  | text text extra =>
    rw [h]
    rfl
  | image imageUrl detail extra =>
    obtain ⟨url, -, rfl⟩ := h
    rfl

theorem inputItemItems_carried {input : ResponsesInputItem} (h : InputItemItems P items input) :
    Carried (responsesItemTurns input) (items.flatMap responsesSentTurns) := by
  cases input with
  | message message =>
    have hitems : items.flatMap responsesSentTurns =
        (messageContentTexts message.content).map (.user, ·) := by
      rw [InputItemItems] at h
      cases hc : message.content with
      | text text => rw [hc, MessageContentItems] at h; rw [h]; rfl
      | parts parts =>
        rw [hc] at h
        exact flatMap_texts responsesPartItem_turns h
    rw [hitems]
    refine .texts ?_ _
    cases message.role <;> simp [ResponsesRole.speaker]
  | text text =>
    obtain ⟨-, rfl⟩ := h
    exact .texts (by simp : Speaker.user ≠ .tool) [text.text]
  | image image =>
    obtain ⟨-, url, -, rfl⟩ := h
    exact .nil
  | toolResult result =>
    obtain ⟨-, -, rfl⟩ := h
    exact .nil

theorem responsesDecoded_carried {wire : ResponsesRequest} (h : ResponsesDecoded P wire request) :
    Carried (responsesTurns wire) (responsesTurns (responsesWire request)) := by
  have hsent : responsesTurns (responsesWire request) = request.input.flatMap responsesSentTurns :=
    flatMap_map ..
  rw [hsent]
  have hin := h.input
  unfold responsesTurns
  cases hi : wire.input with
  | text text =>
    rw [hi, ResponsesInputItems] at hin
    rw [hin]
    exact .texts (by simp : Speaker.user ≠ .tool) [text]
  | items inputs =>
    rw [hi] at hin
    obtain ⟨groups, hg, hflat⟩ := hin
    rw [hflat]
    exact Carried.flatMap (fun _ _ hi => inputItemItems_carried hi) hg

/-! ## Anthropic -/

def itemTexts : InputItem → List String
  | .text text => [text]
  | _ => []

theorem blockItems_texts {block : AnthropicContentBlock} (h : BlockItems P items block) :
    items.flatMap itemTexts = blockTexts block := by
  cases block with
  | unknown value => rw [h]; rfl
  | known block =>
    cases block with
    | text | toolResult =>
      rw [h]
      rfl
    | image source extra =>
      obtain ⟨url, -, rfl⟩ := h
      rfl
    | _ =>
      rw [h]
      rfl

theorem contentItems_texts (h : AnthropicContentItems P items content) :
    items.flatMap itemTexts = anthropicContentTexts content := by
  cases content with
  | text text =>
    rw [h]
    rfl
  | blocks blocks =>
    obtain ⟨groups, hg, rfl⟩ := h
    change groups.flatten.flatMap itemTexts = blocks.flatMap blockTexts
    induction hg with
    | nil => rfl
    | cons hb _ ih =>
      rw [flatten_cons, flatMap_append, flatMap_cons, blockItems_texts hb, ih]

def anthropicItemTurns (item : InputItem) : List Turn := (itemTexts item).map (.user, ·)

/-- The whole input is sent as blocks of one message of the user. -/
theorem anthropicTurns_anthropicWire (request : CanonicalRequest) :
    anthropicTurns (anthropicWire request) = request.input.flatMap anthropicItemTurns := by
  have hblock : ∀ item, blockTexts (.known (anthropicWireBlock item)) = itemTexts item := by
    intro item
    cases item <;> rfl
  simp only [anthropicTurns, anthropicWire, Option.toList_none, flatMap_nil, map_nil,
    nil_append, flatMap_cons, append_nil, anthropicContentTexts, flatMap_map, hblock,
    map_flatMap]
  rfl

theorem anthropicContent_carried {speaker : Speaker} (hs : speaker ≠ .tool)
    (h : AnthropicContentItems P items content) :
    Carried ((anthropicContentTexts content).map (speaker, ·))
    (items.flatMap anthropicItemTurns) := by
  have hitems : items.flatMap anthropicItemTurns = (anthropicContentTexts content).map
      (.user, ·) := by
    rw [← contentItems_texts h, map_flatMap]
    rfl
  rw [hitems]
  exact .texts hs _

theorem anthropicDecoded_carried {document : Json} {wire : AnthropicRequest}
    (h : AnthropicDecoded P document wire request) :
    Carried (anthropicTurns wire) (anthropicTurns (anthropicWire request)) := by
  obtain ⟨groups, hg, hinput⟩ := h.input
  rw [anthropicTurns_anthropicWire, hinput]
  have hmessages : ∀ {messageGroups : List (List InputItem)},
      Forall₂ (fun content group => AnthropicContentItems P group content)
        (wire.messages.map AnthropicMessage.content) messageGroups →
      Carried (wire.messages.flatMap fun message =>
        (anthropicContentTexts message.content).map (AnthropicRole.speaker message.role, ·))
        (messageGroups.flatten.flatMap anthropicItemTurns) := by
    intro messageGroups hm
    refine Carried.flatMap (fun message group hc => anthropicContent_carried ?_ hc)
      (forall₂_map_left_iff.mp hm)
    cases message.role <;> simp [AnthropicRole.speaker]
  unfold anthropicTurns
  rw [AnthropicRequest.contents] at hg
  cases hs : wire.system with
  | none =>
    rw [hs] at hg
    exact hmessages hg
  | some system =>
    rw [hs] at hg
    cases hg with
    | cons hsystem hm =>
      rw [flatten_cons, flatMap_append]
      have hsaid : ([system].flatMap anthropicContentTexts) = anthropicContentTexts system := by
        simp
      rw [Option.toList_some, hsaid]
      exact .append (anthropicContent_carried (by simp) hsystem) (hmessages hm)

/-! ## Routes from a protocol to itself -/

namespace ClientProtocol

variable {p : ClientProtocol} {requestId : String} {json : Bytes}

/-- The turns of a decoded body, and those of what is built from it. -/
theorem turns_of_decode (h : p.decode P requestId json = .ok request) :
    ∃ said sent, p.bodyTurns P.floats json = some said ∧
      p.turns (p.document request).norm = some sent ∧ Carried said sent := by
  cases p with
  | chat =>
    obtain ⟨document, wire, hdoc, hwire, h⟩ := decodeChatRequest_ok h
    refine ⟨_, _, ?_, ?_, chatDecoded_carried (decodeChatWire_ok h)⟩
    · simp [bodyTurns, hdoc, turns, hwire]
    · simp [turns, ClientProtocol.document, readChatRequest_chatDocument]
  | responses =>
    obtain ⟨document, wire, hdoc, hwire, h⟩ := decodeResponsesRequest_ok h
    refine ⟨_, _, ?_, ?_, responsesDecoded_carried (decodeResponsesWire_ok h)⟩
    · simp [bodyTurns, hdoc, turns, hwire]
    · simp [turns, ClientProtocol.document, readResponsesRequest_responsesDocument]
  | anthropic =>
    obtain ⟨document, wire, hdoc, hwire, h⟩ := decodeAnthropicMessage_ok h
    refine ⟨_, _, ?_, ?_, anthropicDecoded_carried (decodeAnthropicWire_ok h)⟩
    · simp [bodyTurns, hdoc, turns, hwire]
    · simp [turns, ClientProtocol.document, readAnthropicRequest_anthropicDocument]

/-- The turns of a body and of what a route from its protocol to itself sends. -/
theorem turns_of_route {adapter : UpstreamAdapter} {sent : Bytes}
    (hp : adapter.protocol = p.upstream) (h : p.route P adapter requestId json = .ok sent) :
    ∃ said heard, p.bodyTurns P.floats json = some said ∧ p.bodyTurns exactFloats sent =
      some heard ∧ Carried said heard := by
  obtain ⟨request, out, hdecode, hbuild, rfl⟩ := route_ok h
  obtain ⟨said, heard, hsaid, hheard, hcarried⟩ := turns_of_decode hdecode
  obtain ⟨-, hbody, -⟩ := UpstreamAdapter.buildRequest_ok hp hbuild
  refine ⟨said, heard, hsaid, ?_, hcarried⟩
  rw [bodyTurns, hbody, fromSlice_exact (decode_nested hdecode).depth_document,
    Option.bind_some, hheard]

/-- **A route keeps a conversation exactly if the user said all of it.** What a route from a
    protocol to itself sends has the conversation of the client's body if every turn of that body is
    one of the user, and only then. Numbers have no part in a conversation; those of the sent body
    are read as they are written. -/
theorem conversation_kept_iff {p : ClientProtocol} {P : Parsers} {adapter : UpstreamAdapter}
    {requestId : String} {json sent : Bytes} (hp : adapter.protocol = p.upstream)
    (h : p.route P adapter requestId json = .ok sent) :
    p.conversation exactFloats sent = p.conversation P.floats json ↔
      ∀ said ∈ p.bodyTurns P.floats json, ∀ turn ∈ said, turn.1 = .user := by
  obtain ⟨said, heard, hsaid, hheard, hcarried⟩ := turns_of_route hp h
  rw [conversation, conversation, hsaid, hheard]
  simpa using hcarried.merged_eq_iff

/-- A chat in which the user asks twice. -/
def questions : Json :=
  .obj [("model", .str "m"), ("messages", .arr [spoken "user" "2+2?", spoken "user" "3+3?"])]

theorem conversation_kept_questions :
    ∃ sent, chat.route plainParsers (plainAdapter .openAiChat) "r" questions.toVec = .ok sent ∧
      chat.conversation exactFloats sent =
        chat.conversation plainParsers.floats questions.toVec := by
  have hread : fromSlice plainParsers.floats questions.toVec = some questions :=
    fromSlice_exact (by decide +kernel)
  have hroute : chat.route plainParsers (plainAdapter .openAiChat) "r" questions.toVec =
      .ok (chatDocument (plainRequest [.text "2+2?", .text "3+3?"])).norm.toVec :=
    route_toVec hread (by simp) (by decide +kernel)
  refine ⟨_, hroute, (conversation_kept_iff rfl hroute).mpr ?_⟩
  rw [bodyTurns, hread]
  decide +kernel

/-- A chat with a system prompt. -/
def instructedGreeting : Json :=
  .obj [("model", .str "m"), ("messages", .arr [spoken "system" "be brief", spoken "user" "hi"])]

/-- The system prompt reaches the upstream as the user's words. -/
theorem system_sent_as_user :
    chat.conversation exactFloats instructedGreeting.toVec =
        some [(.system, "be brief"), (.user, "hi")] ∧
      ∃ sent, chat.route plainParsers (plainAdapter .openAiChat) "r" instructedGreeting.toVec =
        .ok sent ∧ chat.conversation exactFloats sent = some [(.user, "be briefhi")] := by
  have hread : fromSlice exactFloats instructedGreeting.toVec = some instructedGreeting :=
    fromSlice_exact (by decide +kernel)
  refine ⟨?_, (chatDocument (plainRequest [.text "be brief", .text "hi"])).norm.toVec,
    route_toVec hread (by simp) (by decide +kernel), ?_⟩
  · rw [conversation, bodyTurns, hread]
    decide +kernel
  · rw [conversation, bodyTurns, fromSlice_exact (by decide +kernel)]
    decide +kernel

end ClientProtocol

end Wokcore.Protocols
