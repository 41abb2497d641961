import Wokcore.Protocols.Outbound.Order

/-!
# The blocks of an Anthropic stream

What a successful call of the Anthropic codec does in terms of blocks. A delta is sent in the block
that is open, or the open block is closed and one is opened for it (`Delivers`), so events are taken
in order; a whole message is its start, the deltas in their blocks, and its end (`runAll_cases`).
-/

set_option autoImplicit false

namespace Wokcore.Protocols.Outbound

open Lib AnthropicCodec Flags

open AnthropicCodec (WireEvent)

/-- The item a delta belongs to. -/
def itemIdOf : CanonicalEvent → String
  | .outputTextDelta itemId _ => itemId
  | .reasoningDelta itemId _ => itemId
  | .toolCallDelta itemId _ _ _ => itemId
  | _ => ""

/-- The block of a delta. -/
def blockOf : CanonicalEvent → Nat → ActiveBlock
  | .reasoningDelta itemId _ => .reasoning itemId
  | .toolCallDelta itemId callId name _ => .tool itemId callId name
  | e => .text (itemIdOf e)

/-- How the block of a delta is announced. -/
def announced : CanonicalEvent → Json
  | .reasoningDelta _ _ => thinkingBlock
  | .toolCallDelta _ callId name _ => toolBlock callId name
  | _ => textBlock

/-- What a delta carries. -/
def carried : CanonicalEvent → Json
  | .reasoningDelta _ delta => .obj [("type", .str "thinking_delta"), ("thinking", .str delta)]
  | .toolCallDelta _ _ _ delta =>
    .obj [("type", .str "input_json_delta"), ("partial_json", .str delta)]
  | .outputTextDelta _ delta => .obj [("type", .str "text_delta"), ("text", .str delta)]
  | _ => .null

def startWire (index : Nat) (contentBlock : Json) : WireEvent :=
  wire "content_block_start" [("index", .ofNat index), ("content_block", contentBlock)]

def deltaWire (index : Nat) (delta : Json) : WireEvent :=
  wire "content_block_delta" [("index", .ofNat index), ("delta", delta)]

theorem blockOf_index (e : CanonicalEvent) (i : Nat) : (blockOf e i).index = i := by
  cases e <;> rfl

/-- What a delta does: it is sent in the open block, or a block is opened for it. -/
inductive Delivers (e : CanonicalEvent) (c : AnthropicCodec) : List WireEvent → AnthropicCodec →
    Prop where
  | inside {i : Nat} (hactive : c.active = some (blockOf e i)) :
    Delivers e c [deltaWire i (carried e)] c
  | opening {closing : List WireEvent} {callIds : List String} (hitem : c.Registrable (itemIdOf e))
      (hclosing : c.closing = .ok closing) :
      Delivers e c
        (closing ++ [startWire c.nextIndex (announced e), deltaWire c.nextIndex (carried e)])
        { c with active := some (blockOf e c.nextIndex), seenItems := itemIdOf e :: c.seenItems,
                 callIds, nextIndex := c.nextIndex + 1 }

namespace AnthropicCodec

variable {c d : AnthropicCodec} {out : List WireEvent} {e : CanonicalEvent} {itemId : String}

theorem active_of_isActiveText (h : c.isActiveText itemId = true) : ∃ i,
    c.active = some (.text itemId i) := by
  unfold isActiveText at h
  split at h
  · next active i hactive => exact ⟨i, by rw [hactive, eq_of_beq h]⟩
  · cases h

theorem active_of_isActiveReasoning (h : c.isActiveReasoning itemId = true) :
    ∃ i, c.active = some (.reasoning itemId i) := by
  unfold isActiveReasoning at h
  split at h
  · next active i hactive => exact ⟨i, by rw [hactive, eq_of_beq h]⟩
  · cases h

theorem active_of_isActiveTool {callId name : String}
    (h : c.isActiveTool itemId callId name = true) :
    ∃ i, c.active = some (.tool itemId callId name i) := by
  unfold isActiveTool at h
  split at h
  · next item call toolName i hactive =>
    simp only [Bool.and_eq_true, beq_iff_eq] at h
    obtain ⟨⟨rfl, rfl⟩, rfl⟩ := h
    exact ⟨i, hactive⟩
  · cases h

/-- A delta is sent in the block that is open, or one is opened for it. -/
theorem sends_handle (hdelta : e.isDelta = true) (h : handle e c = .ok out d) :
    ∃ activate text, Sends activate text (carried e) c out d ∧ ∀ {opening},
      activate c = .ok opening d → (∃ i, c.active = some (blockOf e i)) ∧ opening = [] ∧ d = c ∨
        ∃ callIds, Opens c (itemIdOf e) (blockOf e) (announced e) callIds opening d := by
  cases e with
  | outputTextDelta itemId delta =>
    refine ⟨_, _, textDelta_eq_ok.mp h, fun hopening => ?_⟩
    rcases activateText_eq_ok.mp hopening with ⟨hactive, hsame⟩ | ⟨-, hopens⟩
    · exact .inl ⟨active_of_isActiveText hactive, hsame⟩
    · exact .inr ⟨_, hopens⟩
  | reasoningDelta itemId delta =>
    refine ⟨_, _, reasoningDelta_eq_ok.mp h, fun hopening => ?_⟩
    rcases activateReasoning_eq_ok.mp hopening with ⟨hactive, hsame⟩ | ⟨-, -, hopens⟩
    · exact .inl ⟨active_of_isActiveReasoning hactive, hsame⟩
    · exact .inr ⟨_, hopens⟩
  | toolCallDelta itemId callId name delta =>
    refine ⟨_, _, toolDelta_eq_ok.mp h, fun hopening => ?_⟩
    rcases activateTool_eq_ok.mp hopening with ⟨hactive, hsame⟩ | ⟨-, -, -, -, hopens⟩
    · exact .inl ⟨active_of_isActiveTool hactive, hsame⟩
    · exact .inr ⟨_, hopens⟩
  | _ => cases hdelta

/-- **Deltas.** -/
theorem delivers_handle (hdelta : e.isDelta = true) (h : handle e c = .ok out d) :
    Delivers e c out d := by
  obtain ⟨activate, text, hsends, hactivate⟩ := sends_handle hdelta h
  obtain ⟨opening, block, hopening, hblock, rfl⟩ := hsends.wires
  rcases hactivate hopening with ⟨⟨i, hactive⟩, rfl, rfl⟩ | ⟨callIds, hopen⟩
  · rw [hactive] at hblock
    cases hblock
    rw [blockOf_index]
    exact .inside hactive
  · obtain ⟨closing, hclosing, rfl⟩ := hopen.wires
    have hstate := hopen.state
    subst hstate
    cases hblock
    rw [blockOf_index, List.append_assoc]
    exact .opening hopen.registrable hclosing

theorem flags_handle (hterminal : c.terminal = false) (h : handle e c = .ok out d) :
    Step e c.flags d.flags := by
  cases e with
  | created responseId =>
    obtain ⟨hnone, -, -, rfl⟩ := created_eq_ok.mp h
    simpa [flags, hterminal, hnone] using Step.created responseId _
  | outputTextDelta | reasoningDelta | toolCallDelta =>
    obtain ⟨_, _, hsends, -⟩ := sends_handle rfl h
    have hflags : c.flags = ⟨false, true, false⟩ := by
      rw [flags, hterminal, hsends.created, hsends.usage]
      rfl
    have hsame : d.flags = c.flags := by cases delivers_handle rfl h <;> rfl
    rw [hsame, hflags]
    exact .delta rfl
  | usage usage =>
    obtain ⟨hcreated, husage, -, wires, -, -, rfl⟩ := takeUsage_eq_ok.mp h
    simpa [flags, hterminal, hcreated, husage] using Step.usage usage
  | completed =>
    obtain ⟨hcreated, ⟨husage, -⟩, -, rfl⟩ := completed_eq_ok.mp h
    simpa [flags, hterminal, hcreated, husage] using Step.completed
  | failed error =>
    obtain ⟨-, rfl⟩ := failed_eq_ok.mp h
    simpa [flags, hterminal] using Step.failed error _ _

theorem flags_encodeEventValues (h : encodeEventValues e c = .ok out d) :
    Step e c.flags d.flags := by
  obtain ⟨hterminal, -, hhandle⟩ := encodeEventValues_eq_ok.mp h
  exact flags_handle (c := c.validated) hterminal hhandle

/-- **What a whole message sends**: its start, the deltas in their blocks, the end of the last block
    and the end of the message. -/
theorem runAll_cases {context : AnthropicEncodeContext} {limits : AnthropicLimits} {id : String}
    {deltas : Events} {usage : Usage}
    {wires : List WireEvent} (h : Call.runAll encodeEventValues (withLimits context limits)
      (whole id deltas usage) = .ok (c, wires)) :
    ∃ (c₁ c₂ : AnthropicCodec) (ws closing : List WireEvent),
      c₁ = { withLimits context limits with contextValidated := true, responseId := some id } ∧
      Call.runAll encodeEventValues c₁ deltas = .ok (c₂, ws) ∧
      ({ c₂ with contextValidated := true } : AnthropicCodec).closing = .ok closing ∧
      wires = wire "message_start" [("message", startMessage context id)] ::
        (ws ++ (closing ++ [lastDelta c₂.context usage, wire "message_stop" []])) := by
  obtain ⟨d₁, c₂, d₃, o₁, ws, o₃, o₄, hcreated, hdeltas, husage, hlast, rfl⟩ := steps_of_runAll h
  obtain ⟨-, -, rfl, rfl⟩ := created_eq_ok.mp (handle_of_step encodeEventValues_eq_ok hcreated)
  obtain ⟨-, -, -, closing, hclosing, rfl, rfl⟩ := takeUsage_eq_ok.mp
    (handle_of_step encodeEventValues_eq_ok husage)
  obtain ⟨-, -, rfl, -⟩ := completed_eq_ok.mp (handle_of_step encodeEventValues_eq_ok hlast)
  refine ⟨_, c₂, ws, closing, rfl, hdeltas, hclosing, ?_⟩
  rw [List.append_assoc]
  rfl

end AnthropicCodec

/-- A context that knows the signature of one item. -/
def signingContext : AnthropicEncodeContext where
  requestId := "q"
  model := "m"
  initialUsage := ⟨0, 0, none, none, .empty⟩
  response := {
    stopReason := .endTurn, stopSequence := none, thinkingSignatures :=
      EntryMap.empty.insert "i" "s"
    extra := .empty }

end Wokcore.Protocols.Outbound
