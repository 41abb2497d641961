import Wokcore.Protocols.Inbound.Items
import Wokcore.Protocols.Route

/-!
# How deep a route nests what it carries

The values a decoder keeps (tool schemas and tool outputs) were inside a body that was read, so they
are as much less deep as they were below its top; an encoder puts them below the top of the body it
writes. On a route from a protocol to itself the second distance is at most the first, and the body
that goes out is not nested too deep to be read.
-/

set_option autoImplicit false

namespace Wokcore.Protocols

open Lib Inbound Upstream Read Json Outcome Option List

variable {j : Json} {P : Parsers} {request : CanonicalRequest} {e : String × Value}
  {extra : Extensions} {document : Json} {tool : ToolDefinition} {requestId : String} {json : Bytes}
  {part : ChatTextPart} {wire : AnthropicRequest} {output : Value} {p : ClientProtocol}

/-! ## Lists below a member -/

section Lists

variable {α : Type*} {f : Json → Option α} {fs : Members} {key : String} {as : List α} {a : α}

theorem depth_of_list (h : list f j = some as) (ha : a ∈ as) : ∃ x, f x = some a ∧
    x.depth + 1 ≤ j.depth := by
  obtain ⟨xs, rfl, x, hx, hf⟩ := of_list h ha
  exact ⟨x, hf, depth_lt_arr hx⟩

theorem depth_of_member_list (hj : (key, j) ∈ fs) (h : list f j = some as) (ha : a ∈ as) :
    ∃ x, f x = some a ∧ x.depth + 2 ≤ (obj fs).depth := by
  obtain ⟨x, hf, hx⟩ := depth_of_list h ha
  exact ⟨x, hf, by have := depth_lt_obj hj; omega⟩

theorem depth_of_required_list (h : required key (list f) fs = some as) (ha : a ∈ as) :
    ∃ x, f x = some a ∧ x.depth + 2 ≤ (obj fs).depth := by
  obtain ⟨j, hj, hl⟩ := of_required h
  exact depth_of_member_list hj hl ha

theorem depth_of_withDefault_list (h : withDefault key (list f) [] fs = some as) (ha : a ∈ as) :
    ∃ x, f x = some a ∧ x.depth + 2 ≤ (obj fs).depth := by
  obtain rfl | ⟨j, hj, hl⟩ := of_withDefault h
  · cases ha
  · exact depth_of_member_list hj hl ha

theorem depth_of_value {v : Value} (hj : (key, j) ∈ fs) (h : value j = some v) :
    v.tree.depth + 1 ≤ (obj fs).depth := by
  cases h
  exact (depth_toValue_le j).trans_lt (depth_lt_obj hj)

end Lists

/-! ## Chat -/

theorem depth_readChatTool {tool : ChatTool} {v : Value} (h : readChatTool j = some tool)
    (hv : v ∈ tool.function.parameters) : v.tree.depth + 2 ≤ j.depth := by
  simp only [readChatTool, do_some] at h
  obtain ⟨fs, hfs, kind, -, function, hfun, rfl⟩ := h
  cases asObject_eq_some hfs
  obtain ⟨g, hg, hread⟩ := of_required hfun
  simp only [readChatFunction, do_some] at hread
  obtain ⟨gs, hgs, name, -, description, -, parameters, hp, rfl⟩ := hread
  cases asObject_eq_some hgs
  cases hv
  obtain ⟨x, hx, hvx⟩ := of_maybe hp
  have h1 := depth_of_value hx hvx
  have h2 := depth_lt_obj hg
  omega

theorem depth_readChatTextPart (h : readChatTextPart j = some part) (he : e ∈ part.extra.entries) :
    e.2.tree.depth + 1 ≤ j.depth := by
  simp only [readChatTextPart, do_some] at h
  obtain ⟨fs, hfs, ⟨_, gs⟩, htag, text, -, rfl⟩ := h
  cases asObject_eq_some hfs
  cases of_tagged htag
  obtain ⟨-, x, hx, hex⟩ := of_mem_rest he
  rw [hex]
  exact (depth_toValue_le x).trans_lt (depth_lt_obj (mem_of_mem_withoutKey hx))

theorem readChatContent_parts {α : Type} {readPart : Json → Option α} {parts : List α}
    (h : readChatContent readPart j = some (.parts parts)) : list readPart j = some parts := by
  cases j with
  | arr xs =>
    obtain ⟨ps, hps, hpp⟩ := map_eq_some_iff.mp h
    cases hpp
    exact hps
  | _ => cases h

/-- Fields of a text part of a tool message are three levels below the message. -/
theorem depth_readChatMessage {parts : List ChatTextPart} {toolCallId : String}
    (h : readChatMessage j = some (.tool (.parts parts) toolCallId extra)) (hp : part ∈ parts)
    (he : e ∈ part.extra.entries) : e.2.tree.depth + 3 ≤ j.depth := by
  simp only [readChatMessage, do_some] at h
  obtain ⟨fs, hfs, ⟨role, gs⟩, htag, h⟩ := h
  cases asObject_eq_some hfs
  cases of_tagged htag
  cases role with
  | tool =>
    simp only [do_some] at h
    obtain ⟨content, hc, id, -, hm⟩ := h
    cases hm
    obtain ⟨x, hx, hread⟩ := of_required hc
    obtain ⟨y, hy, hyx⟩ := depth_of_list (readChatContent_parts hread) hp
    have h1 := depth_readChatTextPart hy he
    have h2 := depth_lt_obj (mem_of_mem_withoutKey hx)
    omega
  | _ =>
    simp only [do_some, reduceCtorEq, and_false, exists_false] at h

theorem depth_readChatRequest {wire : ChatRequest} (h : readChatRequest document = some wire) :
    (∀ message ∈ wire.messages, ∃ j, readChatMessage j = some message ∧
      j.depth + 2 ≤ document.depth) ∧ ∀ tool ∈ wire.tools, ∃ j, readChatTool j = some tool ∧
      j.depth + 2 ≤ document.depth := by
  simp only [readChatRequest, do_some] at h
  obtain ⟨fs, hfs, model, -, messages, hm, tools, ht, _, -, _, -, _, -, _, -, rfl⟩ := h
  cases asObject_eq_some hfs
  exact ⟨fun _ hmem => depth_of_required_list hm hmem, fun _ hmem =>
    depth_of_withDefault_list ht hmem⟩

/-! ## Responses -/

theorem depth_readResponsesTool {tool : ResponsesTool} (h : readResponsesTool j = some tool) :
    tool.parameters.tree.depth + 1 ≤ j.depth := by
  simp only [readResponsesTool, do_some] at h
  obtain ⟨fs, hfs, _, -, _, -, _, -, parameters, hp, rfl⟩ := h
  cases asObject_eq_some hfs
  obtain ⟨x, hx, hv⟩ := of_required hp
  exact depth_of_value hx hv

theorem depth_readResponsesInputItem {result : ResponsesToolResult}
    (h : readResponsesInputItem j = some (.toolResult result)) :
    result.output.tree.depth + 1 ≤ j.depth := by
  have hr : readResponsesToolResult j = some result := by
    -- the result can only come from the last of the four readers
    obtain ⟨_, -, ⟨⟩⟩ | h := of_orElse h
    obtain ⟨_, -, ⟨⟩⟩ | h := of_orElse h
    obtain ⟨_, -, ⟨⟩⟩ | h := of_orElse h
    obtain ⟨_, hr, ⟨⟩⟩ := map_eq_some_iff.mp h
    exact hr
  simp only [readResponsesToolResult, do_some] at hr
  obtain ⟨fs, hfs, _, -, _, -, output, ho, rfl⟩ := hr
  cases asObject_eq_some hfs
  obtain ⟨x, hx, hv⟩ := of_required ho
  exact depth_of_value hx hv

theorem depth_readResponsesRequest {wire : ResponsesRequest}
    (h : readResponsesRequest document = some wire) :
    (∀ inputs, wire.input = .items inputs → ∀ input ∈ inputs,
      ∃ j, readResponsesInputItem j = some input ∧ j.depth + 2 ≤ document.depth) ∧
      ∀ tool ∈ wire.tools, ∃ j, readResponsesTool j = some tool ∧ j.depth + 2 ≤ document.depth := by
  simp only [readResponsesRequest, do_some] at h
  obtain ⟨fs, hfs, model, -, input, hi, tools, ht, _, -, _, -, _, -, rfl⟩ := h
  cases asObject_eq_some hfs
  refine ⟨fun inputs heq item hmem => ?_, fun _ hmem => depth_of_withDefault_list ht hmem⟩
  obtain ⟨x, hx, hread⟩ := of_required hi
  cases heq
  cases x with
  | arr xs =>
    obtain ⟨ps, hps, hpp⟩ := map_eq_some_iff.mp hread
    cases hpp
    exact depth_of_member_list hx hps hmem
  | _ => cases hread

/-! ## Anthropic -/

theorem depth_readAnthropicToolWire {tool : AnthropicTool}
    (h : readAnthropicToolWire j = some (.client tool)) :
    tool.inputSchema.tree.depth + 1 ≤ j.depth := by
  obtain ⟨_, hr, ⟨⟩⟩ | h := of_orElse h
  · simp only [readAnthropicTool, do_some] at hr
    obtain ⟨fs, hfs, _, -, _, -, schema, hs, rfl⟩ := hr
    cases asObject_eq_some hfs
    obtain ⟨x, hx, hv⟩ := of_required hs
    exact depth_of_value hx hv
  · cases h

theorem depth_readContentBlock {toolUseId : String} {content : Option Value} {isError : Option Bool}
    {v : Value} (h :
    readContentBlock j = some (.known (.toolResult toolUseId content isError extra)))
    (hv : v ∈ content) :
    v.tree.depth + 1 ≤ j.depth := by
  obtain ⟨_, hr, ⟨⟩⟩ | h := of_orElse h
  · simp only [readKnownContentBlock, do_some] at hr
    obtain ⟨fs, hfs, ⟨kind, gs⟩, htag, hr⟩ := hr
    cases asObject_eq_some hfs
    cases of_tagged htag
    cases kind with
    | toolResult =>
      simp only [do_some] at hr
      obtain ⟨id, -, content', hc, isError', -, hm⟩ := hr
      cases hm
      cases hv
      obtain ⟨x, hx, hval⟩ := of_maybe hc
      exact depth_of_value (mem_of_mem_withoutKey hx) hval
    | _ =>
      simp only [do_some, reduceCtorEq, and_false, exists_false] at hr
  · cases h

theorem depth_readAnthropicContent {blocks : List AnthropicContentBlock}
    {block : AnthropicContentBlock} (h : readAnthropicContent j = some (.blocks blocks))
    (hb : block ∈ blocks) :
    ∃ x, readContentBlock x = some block ∧ x.depth + 1 ≤ j.depth := by
  cases j with
  | arr xs =>
    obtain ⟨ps, hps, hpp⟩ := map_eq_some_iff.mp h
    cases hpp
    exact depth_of_list hps hb
  | _ => cases h

theorem depth_readAnthropicRequest (h : readAnthropicRequest document = some wire) :
      (∀ message ∈ wire.messages, ∃ j, readAnthropicContent j = some message.content ∧
      j.depth + 3 ≤ document.depth) ∧ ∀ tool ∈ wire.tools, ∃ j, readAnthropicToolWire j =
        some tool ∧ j.depth + 2 ≤ document.depth := by
  simp only [readAnthropicRequest, do_some] at h
  obtain ⟨fs, hfs, model, -, messages, hm, _, -, system, hs, tools, ht, _, -, _, -, _, -, rfl⟩ := h
  cases asObject_eq_some hfs
  refine ⟨fun message hmem => ?_, fun _ hmem => depth_of_withDefault_list ht hmem⟩
  obtain ⟨x, hx, hd⟩ := depth_of_required_list hm hmem
  simp only [readAnthropicMessage, do_some] at hx
  obtain ⟨gs, hgs, _, -, content, hc, rfl⟩ := hx
  cases asObject_eq_some hgs
  obtain ⟨y, hy, hread⟩ := of_required hc
  exact ⟨y, hread, by have := depth_lt_obj hy; omega⟩

/-! ## Decoded requests -/

namespace ClientProtocol

/-- How deep a tool schema may be that comes from, or goes into, a body of the protocol. -/
def schemaNesting : ClientProtocol → Nat
  | .chat => 123
  | .responses => 124
  | .anthropic => 124

/-- How deep the output of a tool may be that comes from, or goes into, a body of the protocol. -/
def outputNesting : ClientProtocol → Nat
  | .chat => 124
  | .responses => 124
  | .anthropic => 122

end ClientProtocol

/-- The values of the request are not too deep for the protocol. -/
structure Nested (p : ClientProtocol) (request : CanonicalRequest) : Prop where
  schema : ∀ tool ∈ request.tools, tool.inputSchema.tree.depth ≤ p.schemaNesting
  output : ∀ callId output, .toolResult callId output ∈ request.input →
    output.tree.depth ≤ p.outputNesting

theorem mem_entries_extend {map : Extensions} (h : e ∈ (extend map extra).entries) :
    e ∈ map.entries ∨ e ∈ extra.entries := by
  have hsame : extra.entries.foldl (fun m e => insertKey e.1 e.2 m) map.entries =
      (extend map extra).entries :=
    foldl_hom EntryMap.entries fun _ _ => rfl
  exact mem_foldl_insertKey (hsame ▸ h)

theorem depth_toolContentValue {content : ChatTextContent} {form : String} {n : Nat}
    (h : toolContentValue content = .ok (form, output))
    (hn : ∀ parts, content = .parts parts → ∀ part ∈ parts, ∀ e ∈ part.extra.entries,
    e.2.tree.depth ≤ n) :
    output.tree.depth ≤ n + 2 := by
  cases content with
  | text text => cases h; exact Nat.zero_le _
  | parts parts =>
    obtain ⟨_, -, h⟩ := do_eq_ok.mp h
    cases h
    refine depth_array_le fun v hv => ?_
    obtain ⟨part, hpart, rfl⟩ := mem_map.mp hv
    refine depth_object_le fun e he => ?_
    rcases mem_entries_extend he with he | he
    · have he := mem_of_mem_ofEntries he
      simp only [mem_cons, not_mem_nil, or_false] at he
      rcases he with rfl | rfl <;> exact Nat.zero_le _
    · exact hn parts rfl part hpart e he

theorem of_mem_flatten {α : Type*} {R : α → List InputItem → Prop} {as : List α}
    {groups : List (List InputItem)} {item : InputItem} (h : List.Forall₂ R as groups)
    (hitem : item ∈ groups.flatten) : ∃ a ∈ as, ∃ group, R a group ∧ item ∈ group := by
  obtain ⟨group, hgroup, hi⟩ := mem_flatten.mp hitem
  obtain ⟨a, ha, hR⟩ := of_mem_right h hgroup
  exact ⟨a, ha, group, hR, hi⟩

theorem decodeChatTool_ok {wire : ChatTool} (h : decodeChatTool wire = .ok tool) :
    tool.name = wire.function.name ∧ tool.description = wire.function.description ∧
      validChatFunctionName tool.name = true ∧
      tool.inputSchema = wire.function.parameters.getD (.object .empty) ∧
      tool.inputSchema.tree.isObject = true := by
  obtain ⟨_, hc, h⟩ := do_eq_ok.mp h
  cases h
  have hc := Result.requireThat_eq_ok.mp hc
  simp only [Bool.and_eq_true] at hc
  exact ⟨rfl, rfl, hc.1.2, rfl, hc.2⟩

theorem of_mem_decodeChatTools {wires : List ChatTool} {tools : List ToolDefinition}
    (h : decodeChatTools wires = .ok tools) (ht : tool ∈ tools) :
    ∃ wire ∈ wires, decodeChatTool wire = .ok tool := by
  have hrun : ∀ (wires : List ChatTool) (names : List String) (tools : List ToolDefinition),
      decodeChatToolsFrom names wires = .ok tools → tool ∈ tools →
      ∃ wire ∈ wires, decodeChatTool wire = .ok tool := by
    intro wires
    induction wires with
    | nil => intro names tools h ht; cases h; cases ht
    | cons wire wires ih =>
      intro names tools h ht
      obtain ⟨decoded, hd, h⟩ := do_eq_ok.mp h
      obtain ⟨_, -, h⟩ := do_eq_ok.mp h
      obtain ⟨more, hm, h⟩ := do_eq_ok.mp h
      cases h
      rcases mem_cons.mp ht with rfl | ht
      · exact ⟨wire, mem_cons_self, hd⟩
      · obtain ⟨w, hw, hwd⟩ := ih _ _ hm ht
        exact ⟨w, mem_cons_of_mem _ hw, hwd⟩
  exact hrun wires [] tools h ht

theorem nested_chat (h : decodeChatRequest P requestId json = .ok request) :
    Nested .chat request := by
  obtain ⟨document, wire, hdoc, hwire, h⟩ := decodeChatRequest_ok h
  have hd := decodeChatWire_ok h
  have hdepth : document.depth ≤ 127 := depth_of_fromSlice hdoc
  obtain ⟨hmessages, htools⟩ := depth_readChatRequest hwire
  constructor
  · intro tool htool
    obtain ⟨wireTool, hmem, hdec⟩ := of_mem_decodeChatTools hd.tools htool
    obtain ⟨j, hj, hjd⟩ := htools wireTool hmem
    have hschema := (decodeChatTool_ok hdec).2.2.2.1
    rw [hschema]
    cases hp : wireTool.function.parameters with
    | none => exact Nat.le_of_ble_eq_true rfl
    | some v =>
      have := depth_readChatTool hj hp
      change v.tree.depth ≤ 123
      omega
  · intro callId output hitem
    obtain ⟨groups, hg, hinput⟩ := hd.input
    obtain ⟨message, hmem, group, hm, hi⟩ := of_mem_flatten hg (hinput ▸ hitem)
    obtain ⟨content, extra, form, rfl, -, hc⟩ := hm.origin hi
    obtain ⟨j, hj, hjd⟩ := hmessages _ hmem
    refine depth_toolContentValue hc (n := 122) fun parts hparts part hpart e he => ?_
    subst hparts
    have := depth_readChatMessage hj hpart he
    omega

theorem decodeResponsesTool_ok {wire : ResponsesTool} (h : decodeResponsesTool wire = .ok tool) :
    tool.name = wire.name ∧ tool.description = wire.description ∧ tool.name ≠ "" ∧
      tool.inputSchema = wire.parameters ∧ tool.inputSchema.tree.isObject = true := by
  obtain ⟨_, hc, h⟩ := do_eq_ok.mp h
  cases h
  have hc := Result.requireThat_eq_ok.mp hc
  simp only [Bool.and_eq_true, Bool.not_eq_true', String.isEmpty_eq_false_iff] at hc
  exact ⟨rfl, rfl, hc.1.2, rfl, hc.2⟩

theorem nested_responses (h : decodeResponsesRequest P requestId json = .ok request) :
    Nested .responses request := by
  obtain ⟨document, wire, hdoc, hwire, h⟩ := decodeResponsesRequest_ok h
  have hd := decodeResponsesWire_ok h
  have hdepth : document.depth ≤ 127 := depth_of_fromSlice hdoc
  obtain ⟨hinputs, htools⟩ := depth_readResponsesRequest hwire
  constructor
  · intro tool htool
    obtain ⟨wireTool, hmem, hdec⟩ := of_mem_right (mapM_eq_ok.mp hd.tools) htool
    obtain ⟨j, hj, hjd⟩ := htools wireTool hmem
    rw [(decodeResponsesTool_ok hdec).2.2.2.1]
    have := depth_readResponsesTool hj
    change wireTool.parameters.tree.depth ≤ 124
    omega
  · intro callId output hitem
    have hin := hd.input
    cases hi : wire.input with
    | text text =>
      rw [hi, ResponsesInputItems] at hin
      exact absurd (hin ▸ hitem) (by simp)
    | items inputs =>
      rw [hi] at hin
      obtain ⟨groups, hg, hflat⟩ := hin
      obtain ⟨input, hmem, group, hm, higroup⟩ := of_mem_flatten hg (hflat ▸ hitem)
      obtain ⟨result, rfl, -, -, rfl⟩ := hm.origin higroup
      obtain ⟨j, hj, hjd⟩ := hinputs inputs hi _ hmem
      have := depth_readResponsesInputItem hj
      change result.output.tree.depth ≤ 124
      omega

/-- A tool result comes from a block of a message of the user. -/
theorem anthropic_toolResult (hd : AnthropicDecoded P document wire request) {callId : String}
    (hi : .toolResult callId output ∈ request.input) :
    ∃ message ∈ wire.messages, ∃ blocks content isError extra,
      message.content = .blocks blocks ∧ message.role = .user ∧
        .known (.toolResult callId content isError extra) ∈ blocks ∧
        output = content.getD (.ofStr "") := by
  obtain ⟨groups, hg, hinput⟩ := hd.input
  obtain ⟨content, hmem, group, hc, hgroup⟩ := of_mem_flatten hg (hinput ▸ hi)
  cases content with
  | text text =>
    exact absurd (hc ▸ hgroup) (by simp)
  | blocks blocks =>
    obtain ⟨groups', hg', rfl⟩ := hc
    obtain ⟨block, hblock, group', hb, hgroup'⟩ := of_mem_flatten hg' hgroup
    obtain ⟨content', isError, extra, rfl, hout⟩ := hb.origin hgroup'
    rcases mem_append.mp hmem with hsys | hmsg
    · -- the check refuses a tool result in the system prompt
      have hvalid := (hd.valid.systemContent _ (mem_toList.mp hsys)).2 _ hblock
      cases hvalid
    · obtain ⟨message, hm, hcontent⟩ := mem_map.mp hmsg
      have hvalid := hd.valid.messageContent message hm
      rw [hcontent] at hvalid
      have hvalid := hvalid.2 _ hblock
      cases hr : message.role with
      | assistant => rw [hr] at hvalid; cases hvalid
      | user => exact ⟨message, hm, blocks, content', isError, extra, hcontent, hr, hblock, hout⟩

theorem mem_clientTools {wires : List AnthropicToolWire} (h : tool ∈ wires.filterMap clientTool) :
    ∃ wire, .client wire ∈ wires ∧ tool.name = wire.name ∧ tool.description = wire.description ∧
      tool.inputSchema = wire.inputSchema := by
  obtain ⟨wire, hmem, hw⟩ := mem_filterMap.mp h
  cases wire with
  | unsupported value => cases hw
  | client wire => cases hw; exact ⟨wire, hmem, rfl, rfl, rfl⟩

theorem nested_anthropic (h : decodeAnthropicMessage P requestId json = .ok request) :
    Nested .anthropic request := by
  obtain ⟨document, wire, hdoc, hwire, h⟩ := decodeAnthropicMessage_ok h
  have hd := decodeAnthropicWire_ok h
  have hdepth : document.depth ≤ 127 := depth_of_fromSlice hdoc
  obtain ⟨hmessages, htools⟩ := depth_readAnthropicRequest hwire
  constructor
  · intro tool htool
    rw [hd.tools] at htool
    obtain ⟨wireTool, hmem, -, -, hschema⟩ := mem_clientTools htool
    obtain ⟨j, hj, hjd⟩ := htools _ hmem
    have := depth_readAnthropicToolWire hj
    change tool.inputSchema.tree.depth ≤ 124
    rw [hschema]
    omega
  · intro callId output hitem
    obtain ⟨message, hmem, blocks, content, isError, extra, hcontent, -, hblock, rfl⟩ :=
      anthropic_toolResult hd hitem
    obtain ⟨j, hj, hjd⟩ := hmessages message hmem
    rw [hcontent] at hj
    obtain ⟨x, hx, hxd⟩ := depth_readAnthropicContent hj hblock
    cases content with
    | none => exact Nat.zero_le _
    | some v =>
      have := depth_readContentBlock hx rfl
      change v.tree.depth ≤ 122
      omega

/-- What a decoder keeps is not too deep for its own protocol. -/
theorem decode_nested (h : p.decode P requestId json = .ok request) : Nested p request := by
  cases p with
  | chat => exact nested_chat h
  | responses => exact nested_responses h
  | anthropic => exact nested_anthropic h

/-! ## Built documents -/

theorem mem_toolsMember {tools : List Json} {f : String × Json} (h : f ∈ toolsMember tools) :
    f = ("tools", .arr tools) := by
  unfold toolsMember at h
  split at h
  · cases h
  · exact mem_singleton.mp h

theorem mem_effortMember {member : String → String × Json} {f : String × Json}
    (h : f ∈ effortMember request member) : ∃ effort, f = member effort := by
  obtain ⟨effort, -, hf⟩ := mem_map.mp (mem_toList.mp h)
  exact ⟨effort, hf.symm⟩

theorem depth_orNull (s : Option String) : (orNull s).depth = 0 := by cases s <;> rfl

theorem depth_tools_le {f : ToolDefinition → Json} {n k : Nat}
    (h : ∀ tool ∈ request.tools, tool.inputSchema.tree.depth ≤ n)
    (hf : ∀ tool, (f tool).depth ≤ tool.inputSchema.tree.depth + k) :
    (arr (request.tools.map f)).depth ≤ n + k + 1 := by
  refine depth_arr_le fun tool htool => ?_
  exact (hf tool).trans (Nat.add_le_add_right (h tool htool) k)

theorem depth_chatDocument (h : Nested .chat request) :
    (chatDocument request).depth ≤ maxNesting := by
  have hmessages : (arr (request.input.map chatMessage)).depth ≤ 6 := by
    refine depth_arr_le fun item _ => ?_
    cases item <;> simp [chatMessage, depth, depthMembers, depthItems]
  have htools : (arr (request.tools.map chatTool)).depth ≤ 126 := by
    refine depth_tools_le (k := 2) h.schema fun tool => ?_
    simp [chatTool, depth, depthMembers, depth_orNull]
  refine depth_obj_le (n := 126) fun f hf => ?_
  simp only [mem_append, mem_cons, not_mem_nil, or_false] at hf
  rcases hf with (((rfl | rfl | rfl) | hf) | hf) | hf
  · exact Nat.zero_le _
  · exact hmessages.trans (by decide)
  · exact Nat.zero_le _
  · split at hf
    · cases mem_singleton.mp hf
      simp [depth, depthMembers]
    · cases hf
  · cases mem_toolsMember hf
    exact htools
  · obtain ⟨effort, rfl⟩ := mem_effortMember hf
    exact Nat.zero_le _

theorem depth_responsesDocument (h : Nested .responses request) :
    (responsesDocument request).depth ≤ maxNesting := by
  have hinput : (arr (request.input.map responsesItem)).depth ≤ 126 := by
    refine depth_arr_le fun item hitem => ?_
    cases item with
    | toolResult callId output =>
      have := h.output callId output hitem
      simp only [ClientProtocol.outputNesting] at this
      simp only [responsesItem, depth, depthMembers]
      omega
    | _ => simp [responsesItem, depth, depthMembers, depthItems]
  have htools : (arr (request.tools.map responsesTool)).depth ≤ 126 := by
    refine depth_tools_le (k := 1) h.schema fun tool => ?_
    simp [responsesTool, depth, depthMembers, depth_orNull]
  refine depth_obj_le (n := 126) fun f hf => ?_
  simp only [mem_append, mem_cons, not_mem_nil, or_false] at hf
  rcases hf with ((rfl | rfl | rfl) | hf) | hf
  · exact Nat.zero_le _
  · exact hinput
  · exact Nat.zero_le _
  · cases mem_toolsMember hf
    exact htools
  · obtain ⟨effort, rfl⟩ := mem_effortMember hf
    simp [depth, depthMembers]

theorem depth_anthropicDocument (h : Nested .anthropic request) :
    (anthropicDocument request .text).depth ≤ maxNesting := by
  have hblocks : (arr (request.input.map anthropicBlock)).depth ≤ 124 := by
    refine depth_arr_le fun item hitem => ?_
    cases item with
    | toolResult callId output =>
      have := h.output callId output hitem
      simp only [ClientProtocol.outputNesting] at this
      simp only [anthropicBlock, depth, depthMembers]
      omega
    | _ => simp [anthropicBlock, depth, depthMembers]
  have htools : (arr (request.tools.map anthropicTool)).depth ≤ 126 := by
    refine depth_tools_le (k := 1) h.schema fun tool => ?_
    simp [anthropicTool, depth, depthMembers, depth_orNull]
  refine depth_obj_le (n := 126) fun f hf => ?_
  simp only [if_true, mem_append, mem_cons, not_mem_nil, or_false] at hf
  rcases hf with (((rfl | rfl) | rfl | rfl) | hf) | hf
  · exact Nat.zero_le _
  · simp only [depth, depthItems, depthMembers] at hblocks ⊢
    omega
  · exact Nat.zero_le _
  · exact Nat.zero_le _
  · cases mem_toolsMember hf
    exact htools
  · split at hf
    · cases mem_singleton.mp hf
      simp [depth, depthMembers, Json.ofNat]
    · cases hf

/-- A document whose values are not too deep for its protocol can be read. -/
theorem Nested.depth_document (h : Nested p request) :
    (p.document request).norm.depth ≤ maxNesting := by
  refine (depth_norm_le _).trans ?_
  cases p with
  | chat => exact depth_chatDocument h
  | responses => exact depth_responsesDocument h
  | anthropic => exact depth_anthropicDocument h

end Wokcore.Protocols
