import Wokcore.Protocols.Outbound.AnthropicBlocks
import Wokcore.Protocols.Upstream.WholeRuns

/-!
# From upstream stream to client codec

`ClientStreamCodec` is one of the three codecs (`wokcore-server/src/data_plane/stream.rs`). It
completes a response of one shape only, and the main result says which upstream streams are decoded
into that shape.
-/

set_option autoImplicit false

namespace Wokcore.Protocols

open Lib Call

namespace Outbound

inductive ClientStreamCodec where
  | responses (codec : ResponsesCodec)
  | chat (codec : ChatCodec)
  | anthropic (codec : AnthropicCodec)

/-- The context a codec is made with. -/
inductive ClientContext where
  | responses (context : ResponsesEncodeContext)
  | chat (context : ChatEncodeContext)
  | anthropic (context : AnthropicEncodeContext)

namespace ClientStreamCodec

def new : ClientContext → ClientStreamCodec
  | .responses context => .responses (.new context)
  | .chat context => .chat (.new context)
  | .anthropic context => .anthropic (.new context)

/-- `ClientStreamCodec::encode`. -/
def encode (event : CanonicalEvent) : Call GatewayError ClientStreamCodec Bytes := fun codec =>
  match codec with
  | .responses codec => within .responses (ResponsesCodec.encodeEvent event) codec
  | .chat codec => within .chat (ChatCodec.encodeChunk event) codec
  | .anthropic codec => within .anthropic (AnthropicCodec.encodeEvent event) codec

def flags : ClientStreamCodec → Flags
  | .responses codec => codec.flags
  | .chat codec => codec.flags
  | .anthropic codec => codec.flags

/-- **Every codec takes events in order.** -/
theorem ordered : Ordered (stepOfCall encode) (fun c => c.flags.phase) fun c => c.flags.Sound := by
  refine .of_flags ?_
  intro codec event codec' out h
  have hencode := outcome_eq_ok.mp h
  cases codec <;> obtain ⟨d, hd, rfl⟩ := within_eq_ok.mp hencode
  case responses =>
    obtain ⟨events, hevents, -⟩ := ResponsesCodec.encodeEvent_eq_ok.mp hd
    exact ResponsesCodec.flags_encodeEventValues hevents
  case chat =>
    obtain ⟨chunks, hchunks, -⟩ := ChatCodec.encodeChunk_eq_ok.mp hd
    exact ChatCodec.flags_transition hchunks
  case anthropic =>
    obtain ⟨events, hevents, -⟩ := AnthropicCodec.encodeEvent_eq_ok.mp hd
    exact AnthropicCodec.flags_encodeEventValues hevents

theorem flags_new (context : ClientContext) : (new context).flags = ⟨false, false, false⟩ := by
  cases context with
  | responses | chat | anthropic => rfl

/-- A codec that gets through a list with `Completed` in it has seen a response of the one shape. -/
theorem shaped_of_runAll {context : ClientContext} {events : Events}
    {r : ClientStreamCodec × Bytes} (h : runAll encode (new context) events = .ok r)
    (hcompleted : .completed ∈ events) : shaped events = true := by
  refine ordered.shaped ?_ ?_ h hcompleted
  · rw [flags_new]
    exact fun hcounted => hcounted
  · rw [flags_new]
    rfl

end ClientStreamCodec

end Outbound

namespace Upstream

open Outbound

/-- **Which streams have the shape of a response.** A run that succeeds returns `Created`, deltas,
    `Usage`, `Completed` exactly if the frames end properly; and that shape is the only one in which
    a client codec completes a response. -/
theorem run_shaped_iff (F : FloatReader) (adapter : UpstreamAdapter) (requestId : String)
    (chunks : List Bytes) (events : List CanonicalEvent)
    (h : (adapter.streamDecoder requestId).run F chunks = .ok events) :
    ((∃ id deltas usage, AllDeltas deltas ∧
        events = .created id :: (deltas ++ [.usage usage, .completed])) ↔
      endsProperly F adapter.protocol (sseFrames adapter.limits chunks) = true) ∧
    ∀ context list r,
      Call.runAll ClientStreamCodec.encode (.new context) list = .ok r → .completed ∈ list →
      ∃ id deltas usage, AllDeltas deltas ∧
      list = .created id :: (deltas ++ [.usage usage, .completed]) := by
  constructor
  · rw [← shaped_iff, UpstreamStreamDecoder.shaped_run F adapter h]
  · intro context list r hr hcompleted
    exact shaped_iff.mp (ClientStreamCodec.shaped_of_runAll hr hcompleted)

/-- A short stream of OpenAI Chat with a usage. -/
def countedChat : Bytes :=
    encodeUtf8 "data:\x7b\"id\":\"r\",\"usage\":\x7b\x7d\x7d\n\ndata:[DONE]\n\n".toList

theorem run_shaped_iff_countedChat :
    let events := [.created "r", .usage emptyUsage, .completed]
    ((plainAdapter .openAiChat).streamDecoder "q").run exactFloats [countedChat] = .ok events ∧
      ∃ id deltas usage, AllDeltas deltas ∧
      events = .created id :: (deltas ++ [.usage usage, .completed]) := by
  intro events
  have hrun : ((plainAdapter .openAiChat).streamDecoder "q").run exactFloats [countedChat] =
      .ok events := by
    decide +kernel
  exact ⟨hrun, (run_shaped_iff exactFloats _ "q" _ _ hrun).1.mpr (by decide +kernel)⟩

/-- A stream of OpenAI Chat that ends without a usage gives a response without one. -/
theorem run_without_usage :
    ((plainAdapter .openAiChat).streamDecoder "q").run exactFloats
        [UpstreamStreamDecoder.shortChat] = .ok [.created "r", .completed] ∧
      ¬ ∃ id deltas usage, AllDeltas deltas ∧
        [CanonicalEvent.created "r", .completed] = .created id ::
        (deltas ++ [.usage usage, .completed]) := by
  refine ⟨by decide +kernel, ?_⟩
  rw [← shaped_iff]
  decide

end Upstream

end Wokcore.Protocols
