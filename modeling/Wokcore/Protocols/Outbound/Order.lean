import Wokcore.Protocols.Outbound.Anthropic
import Wokcore.Protocols.Outbound.Chat
import Wokcore.Protocols.Outbound.Responses

/-!
# What a successful call does

For the methods of the three codecs lemmas say when a call succeeds and what it returns and leaves
behind. From these it follows that a codec takes events in order: a call that succeeds has moved it
on by one step of `Phase` (for Anthropic, see `AnthropicBlocks`). A codec is sound if it has no
usage without a response, which is so at the start and stays so.
-/

set_option autoImplicit false

namespace Wokcore.Protocols.Outbound

open Lib Result Protocols.Stream Flags
open Outcome hiding bind_eq_ok
open Call (bind_eq_ok get_eq_ok lift_eq_ok set_eq_ok)

variable {itemId delta : String} {event : CanonicalEvent} {callId name : String}

/-! ## Chat -/

namespace ChatCodec

variable {c d : ChatCodec} {out : Transition}

abbrev validated (c : ChatCodec) : ChatCodec := { c with contextValidated := true }

theorem requireDeltaAllowed_eq_ok {u : Unit} :
    c.requireDeltaAllowed = .ok u ↔ c.responseId.isSome = true ∧ c.usage = none := by
  simp [requireDeltaAllowed, requireCreated]

theorem created_eq_ok {responseId : String} :
    created responseId c = .ok out d ↔
      c.responseId = none ∧ c.limits.validateIdentifier responseId = .ok () ∧
      ([({ c with responseId := some responseId } : ChatCodec).chunk
        [c.choice (.obj [("role", .str "assistant")]) .null] .null] : List Value) = out ∧
      { c with responseId := some responseId } = d := by
  simp [created, choice, and_assoc]

theorem textDelta_eq_ok :
    textDelta itemId delta c = .ok out d ↔ c.responseId.isSome = true ∧ c.usage = none ∧
      ∃ outputs, c.outputs.registerText itemId c.limits = .ok outputs ∧
        [c.chunk [c.choice (.obj [("content", .str delta)]) .null] .null] = out ∧
        { c with outputs } = d := by
  simp [textDelta, requireDeltaAllowed_eq_ok, and_assoc]

theorem toolDelta_eq_ok :
    toolDelta itemId callId name delta c = .ok out d ↔ c.responseId.isSome = true ∧ c.usage = none ∧
      ∃ outputs toolIndex isNew,
        c.outputs.registerTool itemId callId name c.limits = .ok (outputs, toolIndex, isNew) ∧
        [c.chunk [c.choice (.obj [("tool_calls",
          .arr [toolCallDelta toolIndex isNew callId name delta])]) .null] .null] = out ∧
        { c with outputs } = d := by
  simp [toolDelta, requireDeltaAllowed_eq_ok, and_assoc, -Bool.exists_bool]

theorem takeUsage_eq_ok {usage : Usage} :
    takeUsage usage c = .ok out d ↔ c.responseId.isSome = true ∧ c.usage = none ∧
      ∃ value, c.limits.validateUsage usage = .ok value ∧ [] = out ∧
      { c with usage := some value } = d := by
  simp [takeUsage, requireCreated, and_assoc]

theorem completed_eq_ok :
    completed c = .ok out d ↔ c.responseId.isSome = true ∧ ∃ usage, c.usage = some usage ∧
      c.chunk [c.choice (.obj []) (.str c.context.response.finishReason.asStr)] .null
        :: (if c.context.response.includeUsage then [c.chunk [] usage.tree] else []) = out ∧
      { c with terminal := true } = d := by
  simp [completed, requireCreated, and_assoc]

theorem failed_eq_ok {error : GatewayError} :
    failed error c = .ok out d ↔ [chatErrorEnvelope error] = out ∧
    { c with terminal := true } = d := by
  simp [failed, and_assoc]

/-- A call is handled by a codec that has its context validated. -/
theorem transition_eq_ok :
    transition event c = .ok out d ↔ c.terminal = false ∧
      (c.contextValidated = true ∨ c.limits.validateContext c.context = .ok ()) ∧
      handle event c.validated = .ok out d :=
  guarded_eq_ok terminal contextValidated (fun c => c.limits.validateContext c.context)
    fun _ hvalid => by
    rw [← hvalid]

def flags (c : ChatCodec) : Flags := ⟨c.terminal, c.responseId.isSome, c.usage.isSome⟩

theorem flags_handle (hterminal : c.terminal = false) (h : handle event c = .ok out d) :
    Step event c.flags d.flags := by
  cases event with
  | created responseId =>
    obtain ⟨hnone, -, -, rfl⟩ := created_eq_ok.mp h
    simpa [flags, hterminal, hnone] using Step.created responseId _
  | outputTextDelta itemId delta =>
    obtain ⟨hcreated, husage, outputs, -, -, rfl⟩ := textDelta_eq_ok.mp h
    simpa [flags, hterminal, hcreated, husage] using Step.delta rfl
  | reasoningDelta itemId delta => cases h
  | toolCallDelta itemId callId name delta =>
    obtain ⟨hcreated, husage, outputs, toolIndex, isNew, -, -, rfl⟩ := toolDelta_eq_ok.mp h
    simpa [flags, hterminal, hcreated, husage] using Step.delta rfl
  | usage usage =>
    obtain ⟨hcreated, husage, value, -, -, rfl⟩ := takeUsage_eq_ok.mp h
    simpa [flags, hterminal, hcreated, husage] using Step.usage usage
  | completed =>
    obtain ⟨hcreated, usage, husage, -, rfl⟩ := completed_eq_ok.mp h
    simpa [flags, hterminal, hcreated, husage] using Step.completed
  | failed error =>
    obtain ⟨-, rfl⟩ := failed_eq_ok.mp h
    simpa [flags, hterminal] using Step.failed error _ _

theorem flags_transition (h : transition event c = .ok out d) : Step event c.flags d.flags := by
  obtain ⟨hterminal, -, hhandle⟩ := transition_eq_ok.mp h
  exact flags_handle (c := c.validated) hterminal hhandle

theorem encodeChunk_eq_ok {bytes : Bytes} :
    encodeChunk event c = .ok bytes d ↔ ∃ chunks, transition event c = .ok chunks d ∧
      (if d.terminal then chunks.flatMap (fun value => encodeSse none value) ++ doneMarker
        else chunks.flatMap fun value => encodeSse none value) = bytes := by
  simp [encodeChunk, and_comm]

end ChatCodec

/-! ## Responses -/

/-- The output item a delta stands for. -/
def itemOf : CanonicalEvent → Option ResponsesOutput
  | .outputTextDelta itemId delta => some (.text itemId delta)
  | .reasoningDelta itemId delta => some (.reasoning itemId delta)
  | .toolCallDelta itemId callId name delta => some (.tool itemId callId name delta)
  | _ => none

namespace ResponsesCodec

variable {c d : ResponsesCodec} {out : List WireEvent} {events : List Unnumbered}
  {item : ResponsesOutput} {outputIndex : Nat} {isNew : Bool}

abbrev validated (c : ResponsesCodec) : ResponsesCodec := { c with contextValidated := true }

theorem requireDeltaAllowed_eq_ok {u : Unit} :
    c.requireDeltaAllowed = .ok u ↔ c.responseId.isSome = true ∧ c.usage = none := by
  simp [requireDeltaAllowed, requireCreated]

theorem wires_eq_ok : wires events c = .ok out d ↔ wireFrom c.sequenceNumber events = out ∧
      { c with sequenceNumber := c.sequenceNumber + events.length } = d := by
  simp [wires, and_assoc]

theorem encodeCreated_eq_ok {responseId : String} :
    encodeCreated responseId c = .ok out d ↔
      c.responseId = none ∧ c.limits.validateIdentifier responseId = .ok () ∧
      wires [("response.created",
        [("response", ({ c with responseId := some responseId } : ResponsesCodec).responseValue
        "in_progress" [] .null)])] { c with responseId := some responseId } = .ok out d := by
  simp [encodeCreated, and_assoc]

theorem encodeUsage_eq_ok {usage : Usage} :
    encodeUsage usage c = .ok out d ↔ c.responseId.isSome = true ∧ c.usage = none ∧
      ∃ value, c.limits.validateUsage usage = .ok value ∧ [] = out ∧
      { c with usage := some value } = d := by
  simp [encodeUsage, requireCreated, and_assoc]

theorem encodeCompleted_eq_ok :
    encodeCompleted c = .ok out d ↔ c.responseId.isSome = true ∧ ∃ usage, c.usage = some usage ∧
      wires (c.output.zipIdx.flatMap doneEvents ++ [(c.ending.2, [("response",
          c.responseValue c.ending.1 (c.output.map ResponsesOutput.value) usage.tree)])])
        { c with terminal := true } = .ok out d := by
  simp [encodeCompleted, requireCreated, and_assoc]

theorem encodeFailed_eq_ok {error : GatewayError} :
    encodeFailed error c = .ok out d ↔
      wires [("error", [("code", .str error.code), ("message", .str error.publicMessage),
        ("param", .null)])] { c with terminal := true } = .ok out d := by
  simp [encodeFailed, and_assoc]

theorem encodeEventValues_eq_ok :
    encodeEventValues event c = .ok out d ↔ c.terminal = false ∧
      (c.contextValidated = true ∨ c.limits.validateContext c.context = .ok ()) ∧
      handle event c.validated = .ok out d :=
  guarded_eq_ok terminal contextValidated (fun c => c.limits.validateContext c.context)
    fun _ hvalid => by
    rw [← hvalid]

/-- Appending touches the output and its size only. -/
theorem append_keeps (h : c.append item = .ok (d, outputIndex, isNew)) :
    ∃ output aggregateBytes, d = { c with output, aggregateBytes } := by
  unfold append at h
  split at h
  · simp only [do_ok, Prod.mk.injEq] at h
    obtain ⟨extended, -, aggregateBytes, -, rfl, -, -⟩ := h
    exact ⟨_, _, rfl⟩
  · simp only [do_ok, Prod.mk.injEq] at h
    obtain ⟨-, aggregateBytes, -, rfl, -, -⟩ := h
    exact ⟨_, _, rfl⟩

/-- The item of a delta is appended and sent. -/
theorem delta_of_handle (hitem : itemOf event = some item) (h : handle event c = .ok out d) :
    c.responseId.isSome = true ∧ c.usage = none ∧ ∃ e outputIndex isNew,
      c.append item = .ok (e, outputIndex, isNew) ∧ wires (deltaEvents item outputIndex isNew) e =
        .ok out d := by
  cases event <;> cases hitem
  all_goals
    simp only [handle, encodeTextDelta, appendText, encodeReasoningDelta, appendReasoning,
      encodeToolDelta, appendTool, bind_eq_ok, get_eq_ok, lift_eq_ok, set_eq_ok,
      requireDeltaAllowed_eq_ok, do_ok, Prod.exists, and_assoc, exists_eq_left',
      exists_and_left] at h
  case outputTextDelta | reasoningDelta => exact ⟨h.1, h.2.1, h.2.2.2⟩
  case toolCallDelta => exact ⟨h.1, h.2.1, h.2.2.2.2.2⟩

def flags (c : ResponsesCodec) : Flags := ⟨c.terminal, c.responseId.isSome, c.usage.isSome⟩

theorem flags_delta {e : ResponsesCodec} (hevent : event.isDelta = true)
    (hterminal : c.terminal = false) (hcreated : c.responseId.isSome = true)
    (husage : c.usage = none) (happend : c.append item = .ok (e, outputIndex, isNew))
    (hwires : wires events e = .ok out d) :
    Step event c.flags d.flags := by
  obtain ⟨output, aggregateBytes, rfl⟩ := append_keeps happend
  obtain ⟨-, rfl⟩ := wires_eq_ok.mp hwires
  show Step _ ⟨c.terminal, c.responseId.isSome, c.usage.isSome⟩ ⟨c.terminal, c.responseId.isSome,
    c.usage.isSome⟩
  rw [hterminal, hcreated, husage]
  exact .delta hevent

theorem flags_handle (hterminal : c.terminal = false) (h : handle event c = .ok out d) :
    Step event c.flags d.flags := by
  cases event with
  | created responseId =>
    obtain ⟨hnone, -, hwires⟩ := encodeCreated_eq_ok.mp h
    obtain ⟨-, rfl⟩ := wires_eq_ok.mp hwires
    simpa [flags, hterminal, hnone] using Step.created responseId _
  | outputTextDelta | reasoningDelta | toolCallDelta =>
    obtain ⟨hcreated, husage, e, outputIndex, isNew, happend, hwires⟩ := delta_of_handle rfl h
    exact flags_delta rfl hterminal hcreated husage happend hwires
  | usage usage =>
    obtain ⟨hcreated, husage, value, -, -, rfl⟩ := encodeUsage_eq_ok.mp h
    simpa [flags, hterminal, hcreated, husage] using Step.usage usage
  | completed =>
    obtain ⟨hcreated, usage, husage, hwires⟩ := encodeCompleted_eq_ok.mp h
    obtain ⟨-, rfl⟩ := wires_eq_ok.mp hwires
    simpa [flags, hterminal, hcreated, husage] using Step.completed
  | failed error =>
    obtain ⟨-, rfl⟩ := wires_eq_ok.mp (encodeFailed_eq_ok.mp h)
    simpa [flags, hterminal] using Step.failed error _ _

theorem flags_encodeEventValues (h : encodeEventValues event c = .ok out d) :
    Step event c.flags d.flags := by
  obtain ⟨hterminal, -, hhandle⟩ := encodeEventValues_eq_ok.mp h
  exact flags_handle (c := c.validated) hterminal hhandle

theorem encodeEvent_eq_ok {bytes : Bytes} :
    encodeEvent event c = .ok bytes d ↔ ∃ events, encodeEventValues event c = .ok events d ∧
      (sseBytes events) = bytes := by
  simp [encodeEvent, and_comm]

end ResponsesCodec

/-! ## Anthropic -/

namespace AnthropicCodec

variable {c d : AnthropicCodec} {out : List WireEvent} {activate : Sending}
  {w : WireEvent}

abbrev validated (c : AnthropicCodec) : AnthropicCodec := { c with contextValidated := true }

theorem requireDeltaAllowed_eq_ok {u : Unit} :
    c.requireDeltaAllowed = .ok u ↔ c.responseId.isSome = true ∧ c.usage = none := by
  simp [requireDeltaAllowed, requireCreated]

/-- What is sent to close the open block, if there is one. -/
def closing (c : AnthropicCodec) : Result (List WireEvent) :=
  match c.active with
  | none => .ok []
  | some active => c.closingWires active

theorem closeActive_eq_ok : closeActive c = .ok out d ↔ c.closing = .ok out ∧
    { c with active := none } = d := by
  unfold closeActive closing
  simp only [bind_eq_ok, get_eq_ok, and_assoc, exists_eq_left', exists_and_left]
  cases hactive : c.active with
  | none =>
    have hsame : ({ c with active := none } : AnthropicCodec) = c := by rw [← hactive]
    simp only [Call.pure_eq_ok, hsame, Except.ok.injEq]
  | some active =>
    simp only [bind_eq_ok, set_eq_ok, lift_eq_ok, exists_unit, exists_eq_left', exists_and_left]

/-- The item is new and there is room for it. -/
def Registrable (c : AnthropicCodec) (itemId : String) : Prop :=
  c.limits.validateIdentifier itemId = .ok () ∧ c.seenItems.length < c.limits.maxOutputItems ∧
    itemId ∉ c.seenItems

theorem registerItem_eq_ok {index : Nat} :
    registerItem itemId c = .ok index d ↔ c.Registrable itemId ∧ c.nextIndex = index ∧
      { c with seenItems := itemId :: c.seenItems, nextIndex := c.nextIndex + 1 } = d := by
  simp [registerItem, Registrable, and_assoc]

theorem openBlock_eq_ok {block : ActiveBlock} {contentBlock : Json} :
      openBlock block contentBlock c = .ok w d ↔ wire "content_block_start"
      [("index", .ofNat block.index), ("content_block", contentBlock)] = w ∧
      { c with active := some block } = d := by
  simp [openBlock, and_assoc]

/-- The open block has been closed and a new one opened. -/
structure Opens (c : AnthropicCodec) (itemId : String) (block : Nat → ActiveBlock)
    (contentBlock : Json) (callIds : List String) (out : List WireEvent) (d : AnthropicCodec) :
    Prop where
  registrable : c.Registrable itemId
  wires : ∃ closing, c.closing = .ok closing ∧ out = closing ++ [wire "content_block_start"
    [("index", .ofNat (block c.nextIndex).index), ("content_block", contentBlock)]]
  state : d = { c with
    active := some (block c.nextIndex), seenItems := itemId :: c.seenItems, callIds, nextIndex :=
      c.nextIndex + 1 }

def textBlock : Json := .obj [("type", .str "text"), ("text", .str "")]

def thinkingBlock : Json := .obj [("type", .str "thinking"), ("thinking", .str ""),
    ("signature", .str "")]

def toolBlock (callId name : String) : Json :=
  .obj [("type", .str "tool_use"), ("id", .str callId), ("name", .str name), ("input", .obj [])]

/-- A block that is open stays open; any other is opened. -/
theorem unlessActive_eq_ok {active : Bool} {opening : Sending} :
    (if active then pure [] else opening) c = .ok out d ↔
      (active = true ∧ out = [] ∧ d = c) ∨ (active = false ∧ opening c = .ok out d) := by
  cases active with
  | true => simp [eq_comm]
  | false => simp

theorem activateText_eq_ok :
    activateText itemId c = .ok out d ↔ (c.isActiveText itemId = true ∧ out = [] ∧ d = c) ∨
      (c.isActiveText itemId = false ∧
        Opens c itemId (.text itemId) textBlock c.callIds out d) := by
  refine unlessActive_eq_ok.trans (or_congr_right (and_congr_right fun _ => ?_))
  simp only [bind_eq_ok, closeActive_eq_ok, registerItem_eq_ok, openBlock_eq_ok, Call.pure_eq_ok,
    and_assoc, exists_eq_left', exists_and_left]
  constructor
  · rintro ⟨wires, hclosing, hitem, rfl, rfl⟩
    exact ⟨hitem, ⟨wires, hclosing, rfl⟩, rfl⟩
  · rintro ⟨hitem, ⟨wires, hclosing, rfl⟩, rfl⟩
    exact ⟨wires, hclosing, hitem, rfl, rfl⟩

theorem activateReasoning_eq_ok :
    activateReasoning itemId c = .ok out d ↔ (c.isActiveReasoning itemId = true ∧ out = [] ∧
      d = c) ∨ (c.isActiveReasoning itemId = false ∧
        (∃ signature, c.context.response.signatureOf itemId = .ok signature ∧
          c.limits.validateOpaquePayload signature = .ok ()) ∧
        Opens c itemId (.reasoning itemId) thinkingBlock c.callIds out d) := by
  refine unlessActive_eq_ok.trans (or_congr_right (and_congr_right fun _ => ?_))
  simp only [bind_eq_ok, lift_eq_ok, closeActive_eq_ok, registerItem_eq_ok, openBlock_eq_ok,
    Call.pure_eq_ok, exists_unit, and_assoc, exists_eq_left', exists_and_left]
  constructor
  · rintro ⟨signature, hsignature, hpayload, wires, hclosing, hitem, rfl, rfl⟩
    exact ⟨⟨signature, hsignature, hpayload⟩, hitem, ⟨wires, hclosing, rfl⟩, rfl⟩
  · rintro ⟨⟨signature, hsignature, hpayload⟩, hitem, ⟨wires, hclosing, rfl⟩, rfl⟩
    exact ⟨signature, hsignature, hpayload, wires, hclosing, hitem, rfl, rfl⟩

theorem activateTool_eq_ok :
    activateTool itemId callId name c = .ok out d ↔ (c.isActiveTool itemId callId name = true ∧
      out = [] ∧ d = c) ∨ (c.isActiveTool itemId callId name = false ∧
        c.limits.validateIdentifier callId = .ok () ∧ c.limits.validateIdentifier name = .ok () ∧
        callId ∉ c.callIds ∧ Opens c itemId (.tool itemId callId name) (toolBlock callId name)
        (callId :: c.callIds) out d) := by
  refine unlessActive_eq_ok.trans (or_congr_right (and_congr_right fun _ => ?_))
  simp only [bind_eq_ok, get_eq_ok, lift_eq_ok, set_eq_ok, closeActive_eq_ok, registerItem_eq_ok,
    openBlock_eq_ok, Call.pure_eq_ok, checks_ok, exists_unit, and_assoc, exists_eq_left',
    exists_and_left, Bool.not_eq_true', List.contains_eq_mem, decide_eq_false_iff_not]
  constructor
  · rintro ⟨hcall, hname, wires, hclosing, hfresh, hitem, rfl, rfl⟩
    exact ⟨hcall, hname, hfresh, hitem, ⟨wires, hclosing, rfl⟩, rfl⟩
  · rintro ⟨hcall, hname, hfresh, hitem, ⟨wires, hclosing, rfl⟩, rfl⟩
    exact ⟨hcall, hname, wires, hclosing, hfresh, hitem, rfl, rfl⟩

theorem deltaWire_eq_ok {delta : Json} : deltaWire delta c = .ok w d ↔ ∃ block,
      c.active = some block ∧ wire "content_block_delta" [("index", .ofNat block.index),
        ("delta", delta)] = w ∧ c = d := by
  simp only [deltaWire, bind_eq_ok, get_eq_ok, lift_eq_ok, Call.pure_eq_ok, checks_ok,
    and_assoc, exists_eq_left', exists_and_left]

/-- A delta of a block that has been activated. -/
structure Sends (activate : Sending) (text : String) (delta : Json)
    (c : AnthropicCodec) (out : List WireEvent) (d : AnthropicCodec) : Prop where
  created : c.responseId.isSome = true
  usage : c.usage = none
  size : c.limits.validateValue (.str text) = .ok ()
  wires : ∃ opening block, activate c = .ok opening d ∧ d.active = some block ∧
    out = opening ++ [wire "content_block_delta" [("index", .ofNat block.index), ("delta", delta)]]

theorem sends_iff {text : String} {delta : Json} : (do
      let c ← get
      Call.lift c.requireDeltaAllowed
      Call.lift (c.limits.validateValue (.str text))
      let wires ← activate
      let last ← deltaWire delta
      return wires ++ [last] : Sending) c = .ok out d ↔
      Sends activate text delta c out d := by
  simp only [bind_eq_ok, get_eq_ok, lift_eq_ok, Call.pure_eq_ok, requireDeltaAllowed_eq_ok,
    deltaWire_eq_ok, exists_unit, and_assoc, exists_eq_left', exists_and_left]
  constructor
  · rintro ⟨hcreated, husage, hsize, opening, e, hactivate, last, f, ⟨block, hblock, rfl, rfl⟩,
      rfl, rfl⟩
    exact ⟨hcreated, husage, hsize, opening, block, hactivate, hblock, rfl⟩
  · rintro ⟨hcreated, husage, hsize, opening, block, hactivate, hblock, rfl⟩
    exact ⟨hcreated, husage, hsize, opening, d, hactivate, _, d, ⟨block, hblock, rfl, rfl⟩,
      rfl, rfl⟩

theorem textDelta_eq_ok :
    textDelta itemId delta c = .ok out d ↔
      Sends (activateText itemId) delta (.obj [("type", .str "text_delta"), ("text", .str delta)]) c
      out d :=
  sends_iff

theorem reasoningDelta_eq_ok :
    reasoningDelta itemId delta c = .ok out d ↔ Sends (activateReasoning itemId) delta
      (.obj [("type", .str "thinking_delta"), ("thinking", .str delta)]) c out d :=
  sends_iff

theorem toolDelta_eq_ok :
    toolDelta itemId callId name delta c = .ok out d ↔ Sends (activateTool itemId callId name) delta
      (.obj [("type", .str "input_json_delta"), ("partial_json", .str delta)]) c out d :=
  sends_iff

/-- The message a stream starts with. -/
def startMessage (context : AnthropicEncodeContext) (responseId : String) : Json :=
  .obj (orInsertAll
    [("id", .str responseId), ("type", .str "message"), ("role", .str "assistant"),
      ("content", .arr []), ("model", .str context.model), ("stop_reason", .null),
      ("stop_sequence", .null), ("usage", (initialUsageValue context.initialUsage).tree)]
      context.response.extra)

theorem created_eq_ok {responseId : String} :
    created responseId c = .ok out d ↔
      c.responseId = none ∧ c.limits.validateIdentifier responseId = .ok () ∧
      [wire "message_start" [("message", startMessage c.context responseId)]] = out ∧
      { c with responseId := some responseId } = d := by
  simp [created, startMessage, and_assoc]

/-- The event that ends a message, before it is stopped. -/
def lastDelta (context : AnthropicEncodeContext) (usage : Usage) : WireEvent :=
  wire "message_delta"
    [("delta", .obj [("stop_reason", .str context.response.stopReason.asStr),
      ("stop_sequence", optionJson .str context.response.stopSequence)]),
     ("usage", (finalUsageValue usage).tree)]

theorem takeUsage_eq_ok {usage : Usage} :
    takeUsage usage c = .ok out d ↔ c.responseId.isSome = true ∧ c.usage = none ∧
      c.limits.validateValue (anthropicUsageValue usage).tree = .ok () ∧
      ∃ wires, c.closing = .ok wires ∧ wires ++ [lastDelta c.context usage] = out ∧
        { c with active := none, usage := some usage } = d := by
  simp [takeUsage, requireCreated, closeActive_eq_ok, lastDelta, and_assoc]

theorem completed_eq_ok :
    completed c = .ok out d ↔ c.responseId.isSome = true ∧
      (c.usage.isSome = true ∧ c.active = none) ∧ [wire "message_stop" []] = out ∧
      { c with terminal := true } = d := by
  simp [completed, requireCreated, and_assoc]

theorem failed_eq_ok {error : GatewayError} :
    failed error c = .ok out d ↔
      [wire "error"
        [("error", .obj [("type", .str (anthropicErrorType error)),
          ("message", .str error.publicMessage)])]] = out ∧ { c with terminal := true } = d := by
  simp [failed, and_assoc]

theorem encodeEventValues_eq_ok :
    encodeEventValues event c = .ok out d ↔ c.terminal = false ∧
      (c.contextValidated = true ∨ c.limits.validateContext c.context = .ok ()) ∧
      handle event c.validated = .ok out d :=
  guarded_eq_ok terminal contextValidated (fun c => c.limits.validateContext c.context)
    fun _ hvalid => by
    rw [← hvalid]

def flags (c : AnthropicCodec) : Flags := ⟨c.terminal, c.responseId.isSome, c.usage.isSome⟩

theorem encodeEvent_eq_ok {bytes : Bytes} :
    encodeEvent event c = .ok bytes d ↔ ∃ events, encodeEventValues event c = .ok events d ∧
      (sseBytes events) = bytes := by
  simp [encodeEvent, and_comm]

end AnthropicCodec

end Wokcore.Protocols.Outbound
