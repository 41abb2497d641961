import Wokcore.Protocols.Upstream.Reporting

/-!
# Whole runs and whole bodies

A run of a stream decoder is a run over the frames its chunks are cut into. With what one frame does
known for every protocol, the shape of all events of a run can be read off its frames, and so can
where its chunks may be cut (`UpstreamStreamDecoder.run_iff_open`). A complete body always gives
`Created`, deltas and `Completed`, and a usage if the protocol or the body has one.
-/

set_option autoImplicit false

namespace Wokcore.Protocols.Upstream

open Lib Protocols.Stream Outcome Result AzureStreamDecoder GeminiStream GeminiStreamDecoder
  AzureResponseDecoder
  GeminiResponseDecoder SseDecoder AnthropicStreamDecoder ResponsesStreamDecoder StreamDecoder

variable {chunks : List Bytes} {out last : Events} {F : FloatReader} {requestId : String}
  {limits : UpstreamLimits}

/-! ## The frames of a run -/

/-- The frames a stream is cut into. -/
def sseFrames (limits : UpstreamLimits) (chunks : List Bytes) : List SseFrame :=
  ((withLimits limits.maxStreamFrameBytes limits.maxEvents).pushAll chunks).2.toOption.getD []

namespace StreamDecoder

variable {σ : Type} {closed : σ → Bool} {d d' : StreamDecoder σ}

section

variable {τ : Type} (view : StreamDecoder σ → τ)
  {push : StreamDecoder σ → Bytes → Result (StreamDecoder σ × Events)}
  (step : UpstreamLimits → τ → SseFrame → Result (τ × Events))
  (hpush : ∀ {d chunk e o}, push d chunk = .ok (e, o) → ∃ frames,
    d.sse.push chunk = (e.sse, .ok frames) ∧ e.limits = d.limits ∧ feed (step d.limits)
    (view d) frames = .ok (view e, o))
include hpush

/-- The events of a run are those of its frames, if that is so for every push. -/
theorem frames_of_feed (h : feed push d chunks = .ok (d', out)) :
    ∃ frames, d.sse.pushAll chunks = (d'.sse, .ok frames) ∧ feed (step d.limits) (view d) frames =
      .ok (view d', out) := by
  induction chunks generalizing d out with
  | nil =>
    cases h
    exact ⟨[], rfl, rfl⟩
  | cons chunk chunks ih =>
    obtain ⟨e, o, p, hchunk, hrest, rfl⟩ := feed_cons_eq_ok.mp h
    obtain ⟨frames, hsse, hlimits, hfeed⟩ := hpush hchunk
    obtain ⟨more, hall, hmore⟩ := ih hrest
    rw [hlimits] at hmore
    exact ⟨frames ++ more, pushAll_cons_eq_ok.mpr ⟨_, frames, more, hsse, hall, rfl⟩,
      feed_append.mpr ⟨_, o, p, hfeed, hmore, rfl⟩⟩

theorem feed_sseFrames {s : σ} (h : feed push (fresh limits s) chunks = .ok (d', out)) :
    feed (step limits) (view (fresh limits s)) (sseFrames limits chunks) = .ok (view d', out) := by
  obtain ⟨frames, hframes, hfeed⟩ := frames_of_feed view step hpush h
  rw [sseFrames, show (withLimits _ _).pushAll chunks = _ from hframes]
  exact hfeed

end

theorem feed_of_pushCounted
    {decodeFrame : UpstreamLimits → σ × Events → SseFrame → Result (σ × Events)}
    (happ : ∀ limits, Appending (decodeFrame limits)) {s : σ}
    (h : feed (pushCounted closed decodeFrame) (fresh limits s) chunks = .ok (d', out)) :
    feed (stepOf (decodeFrame limits)) s (sseFrames limits chunks) = .ok (d'.response, out) := by
  refine feed_sseFrames response (fun limits => stepOf (decodeFrame limits)) ?_ h
  intro d chunk e o hpush
  obtain ⟨-, x, frames, response, hreceive, hloop, haccount⟩ := pushCounted_eq_ok.mp hpush
  obtain ⟨-, sse, hsse, rfl⟩ := receive_eq_ok.mp hreceive
  obtain ⟨-, rfl⟩ := account_eq_ok.mp haccount
  obtain ⟨o', ho, hfeed⟩ := feed_of_foldlM (happ d.limits) hloop
  cases ho
  exact ⟨frames, hsse, rfl, hfeed⟩

theorem feed_of_pushEach
    {decodeFrame : UpstreamLimits → (σ × Nat) × Events → SseFrame → Result ((σ × Nat) × Events)}
    (happ : ∀ limits, Appending (decodeFrame limits)) {s : σ}
    (h : feed (pushEach closed decodeFrame) (fresh limits s) chunks = .ok (d', out)) :
    feed (stepOf (decodeFrame limits)) (s, 0) (sseFrames limits chunks) =
      .ok ((d'.response, d'.emittedEvents), out) := by
  refine feed_sseFrames (fun d => (d.response, d.emittedEvents))
    (fun limits => stepOf (decodeFrame limits)) ?_ h
  intro d chunk e o hpush
  obtain ⟨-, x, frames, response, emittedEvents, hreceive, hloop, rfl⟩ := pushEach_eq_ok.mp hpush
  obtain ⟨-, sse, hsse, rfl⟩ := receive_eq_ok.mp hreceive
  obtain ⟨o', ho, hfeed⟩ := feed_of_foldlM (happ d.limits) hloop
  cases ho
  exact ⟨frames, hsse, rfl, hfeed⟩

end StreamDecoder

namespace UpstreamStreamDecoder

/-- What a run through the sum of decoders is for one of them. -/
theorem feed_wrap {δ : Type} (make : δ → UpstreamStreamDecoder)
    {push' : δ → Bytes → Result (δ × Events)}
    (hpush : ∀ x chunk, push F (make x) chunk = wrap make (push' x chunk)) {x : δ}
    {e : UpstreamStreamDecoder} (h : feed (push F) (make x) chunks = .ok (e, out)) :
    ∃ y, e = make y ∧ feed push' x chunks = .ok (y, out) := by
  induction chunks generalizing x out with
  | nil =>
    cases h
    exact ⟨x, rfl, rfl⟩
  | cons chunk chunks ih =>
    obtain ⟨u, o, p, hchunk, hrest, rfl⟩ := feed_cons_eq_ok.mp h
    rw [hpush] at hchunk
    obtain ⟨y, hy, rfl⟩ := wrap_eq_ok.mp hchunk
    obtain ⟨z, rfl, hz⟩ := ih hrest
    exact ⟨z, rfl, feed_cons_eq_ok.mpr ⟨y, o, p, hy, hz, rfl⟩⟩

/-! ## How a body is cut -/

/-- Whether a frame is the last one of a response. -/
def endsResponse (F : FloatReader) : UpstreamProtocol → SseFrame → Bool
  | .openAiResponses => ResponsesStream.last F
  | .anthropic => AnthropicStream.last F
  | .openAiChat | .azureOpenAi => isDone
  | .gemini => GeminiStream.last F

/-- A decoder is closed by the last frame of a response. -/
theorem terminal_of_feed {adapter : UpstreamAdapter} {d : UpstreamStreamDecoder}
    (h : feed (push F) (adapter.streamDecoder requestId) chunks = .ok (d, out)) :
    d.terminal = (sseFrames adapter.limits chunks).any (endsResponse F adapter.protocol) := by
  unfold UpstreamAdapter.streamDecoder at h
  cases hprotocol : adapter.protocol <;> rw [hprotocol] at h
  all_goals
    dsimp only at h
    obtain ⟨d, rfl, hd⟩ := feed_wrap _ (fun _ _ => rfl) h
  case openAiResponses =>
    have hfeed := feed_of_pushCounted (ResponsesStream.appending_decodeFrame F) hd
    exact feed_any ResponsesStream.completed
      (fun h => (ResponsesStream.terminating F _).last h) hfeed
  case anthropic =>
    have hfeed := feed_of_pushCounted (AnthropicStream.appending_decodeFrame F) hd
    exact feed_any AnthropicStream.completed
      (fun h => (AnthropicStream.terminating F _).last h) hfeed
  case openAiChat | azureOpenAi =>
    have hfeed := feed_of_pushEach (AzureStream.appending_decodeFrame F) hd
    exact feed_any (fun s => s.1.closed) (fun h => AzureStream.closed_step h) hfeed
  case gemini =>
    have hfeed := feed_of_pushEach (appending_decodeFrame F) hd
    exact feed_any (fun s => s.1.closed) (fun h => closed_step h) hfeed

/-- **How a body is cut.** A body that is decoded in one push is decoded in pieces, to the same
    events, exactly if no piece follows the last frame of the response. -/
theorem run_iff_open (F : FloatReader) (adapter : UpstreamAdapter) (requestId : String)
    (chunks : List Bytes) (events : List CanonicalEvent)
    (h : (adapter.streamDecoder requestId).run F [chunks.flatten] = .ok events) :
    (adapter.streamDecoder requestId).run F chunks = .ok events ↔
      ∀ before chunk after, chunks = before ++ chunk :: after → before ≠ [] →
        (sseFrames adapter.limits [before.flatten]).any (endsResponse F adapter.protocol) =
          false := by
  rw [run_iff_not_terminal F adapter requestId chunks events h]
  refine forall₃_congr fun before chunk after => forall₂_congr fun hcut _ => ?_
  obtain ⟨d, es, d', last, hone, -⟩ := run_eq_ok.mp h
  rw [feed_singleton, hcut, List.flatten_append] at hone
  obtain ⟨u, o, p, hbefore, -⟩ := (cuttable_push F).split hone
  rw [← terminal_of_feed ((feed_singleton _ _).trans hbefore)]
  constructor
  · intro hopen
    exact hopen u o hbefore
  · intro hopen v q hv
    rw [hbefore] at hv
    cases hv
    exact hopen

/-- A short stream of OpenAI Chat, with carriage returns in its line ends. -/
def shortChat : Bytes := encodeUtf8 "data: \x7b\"id\":\"r\"\x7d\r\n\r\ndata: [DONE]\r\n\r\n".toList

/-- Cut inside its last frame, the stream is decoded as in one push. -/
theorem run_iff_open_shortChat :
    let d := (plainAdapter .openAiChat).streamDecoder "q"
    d.run exactFloats [shortChat.take 25, shortChat.drop 25] = .ok [.created "r", .completed] := by
  intro d
  have hone : d.run exactFloats [[shortChat.take 25, shortChat.drop 25].flatten] =
      .ok [.created "r", .completed] := by decide +kernel
  refine (run_iff_open exactFloats _ "q" _ _ hone).mpr ?_
  intro before chunk after hcut hne
  -- with two chunks there is one place where another one is pushed
  have hbefore : before = [shortChat.take 25] := by
    obtain ⟨c, cs, rfl⟩ := List.exists_cons_of_ne_nil hne
    obtain ⟨rfl, hrest⟩ := List.cons.inj hcut
    cases cs with
    | nil => rfl
    | cons c' cs => simp at hrest
  rw [hbefore]
  decide +kernel

/-- Cut before its very last byte, the stream fails: the decoder has seen `[DONE]` and the line feed
    that completes the line end is one chunk too many. -/
theorem run_cut_in_last_lineEnd :
    let d := (plainAdapter .openAiChat).streamDecoder "q"
    let chunks := [shortChat.dropLast, [lineFeed]]
    d.run exactFloats [chunks.flatten] = .ok [.created "r", .completed] ∧
      d.run exactFloats chunks = .error .invalidRequest := by
  decide +kernel

end UpstreamStreamDecoder

/-! ## The shape of a run -/

/-- Whether the frames of a stream end a response as they should: after the terminal frame comes
    nothing that carries an event, or the provider has sent a usage. -/
def endsProperly (F : FloatReader) (protocol : UpstreamProtocol) (frames : List SseFrame) : Bool :=
  match protocol with
  | .openAiResponses => quietAfter (ResponsesStream.loud F) (ResponsesStream.last F) frames
  | .anthropic => quietAfter (AnthropicStream.loud F) (AnthropicStream.last F) frames
  | .openAiChat | .azureOpenAi => frames.any (AzureStream.carriesUsage F)
  | .gemini => frames.any (carriesUsage F)

theorem endSse_eq_ok {σ : Type} {d d' : StreamDecoder σ} (h : d.endSse = .ok d') :
    d'.response = d.response ∧ d'.limits = d.limits ∧ d'.emittedEvents = d.emittedEvents := by
  unfold endSse at h
  split at h
  · cases h
    exact ⟨rfl, rfl, rfl⟩
  · cases h

theorem AzureStreamDecoder.shaped_eq {d d' : AzureStreamDecoder}
    (h : feed (push F) (.new requestId limits) chunks = .ok (d, out))
    (hfinish : d.finish = .ok (d', last)) :
    shaped (out ++ last) = (sseFrames limits chunks).any (AzureStream.carriesUsage F) := by
  have hfeed := feed_of_pushEach (AzureStream.appending_decodeFrame F) h
  obtain ⟨hprogress, hcompleted, husage⟩ := (AzureStream.reporting F limits).progress .idle hfeed
  simp only [finish, do_ok, checks_ok, Prod.exists, Prod.mk.injEq] at hfinish
  obtain ⟨-, e, hend, -, decoder, events, hclose, emitted, -, -, rfl⟩ := hfinish
  rw [(endSse_eq_ok hend).1] at hclose
  rw [List.nil_append] at hprogress
  rw [finish_eq_ok hcompleted hclose, shaped_closing hprogress, husage]
  rfl

theorem GeminiStreamDecoder.shaped_eq {d d' : GeminiStreamDecoder}
    (h : feed (push F) (.new requestId limits) chunks = .ok (d, out))
    (hfinish : d.finish = .ok (d', last)) :
    shaped (out ++ last) = (sseFrames limits chunks).any (carriesUsage F) := by
  have hfeed := feed_of_pushEach (appending_decodeFrame F) h
  obtain ⟨hprogress, hcompleted, husage⟩ := (reporting F limits).progress .idle hfeed
  simp only [finish, do_ok, checks_ok, Prod.exists, Prod.mk.injEq] at hfinish
  obtain ⟨-, e, hend, -, decoder, events, hclose, emitted, -, -, rfl⟩ := hfinish
  rw [(endSse_eq_ok hend).1] at hclose
  rw [List.nil_append] at hprogress
  rw [finish_eq_ok hcompleted hclose, shaped_closing hprogress, husage]
  rfl

theorem ResponsesStreamDecoder.shaped_eq {d d' : ResponsesStreamDecoder}
    (h : feed (push F) (.new requestId limits) chunks = .ok (d, out))
    (hfinish : d.finish = .ok (d', last)) :
    shaped (out ++ last) = quietAfter (ResponsesStream.loud F) (ResponsesStream.last F)
    (sseFrames limits chunks) := by
  have hfeed := feed_of_pushCounted (ResponsesStream.appending_decodeFrame F) h
  simp only [finish, do_ok, checks_ok, Prod.mk.injEq] at hfinish
  obtain ⟨e, hend, hcompleted, -, rfl⟩ := hfinish
  rw [(endSse_eq_ok hend).1] at hcompleted
  rw [Bool.eq_iff_iff, List.append_nil]
  exact (ResponsesStream.terminating F limits).shaped_iff_quietAfter [] rfl .idle hfeed hcompleted

theorem AnthropicStreamDecoder.shaped_eq {d d' : AnthropicStreamDecoder}
    (h : feed (push F) (.new requestId limits) chunks = .ok (d, out))
    (hfinish : d.finish = .ok (d', last)) :
    shaped (out ++ last) = quietAfter (AnthropicStream.loud F) (AnthropicStream.last F)
    (sseFrames limits chunks) := by
  have hfeed := feed_of_pushCounted (AnthropicStream.appending_decodeFrame F) h
  simp only [finish, do_ok, checks_ok, Prod.mk.injEq] at hfinish
  obtain ⟨e, hend, hcompleted, -, rfl⟩ := hfinish
  rw [(endSse_eq_ok hend).1] at hcompleted
  rw [Bool.eq_iff_iff, List.append_nil]
  exact (AnthropicStream.terminating F limits).shaped_iff_quietAfter [] rfl .idle hfeed hcompleted

/-- **The shape of a decoded stream.** What a run returns has the shape of a response exactly if its
    frames end the response properly. -/
theorem UpstreamStreamDecoder.shaped_run (F : FloatReader) (adapter : UpstreamAdapter)
    {events : Events} (h : (adapter.streamDecoder requestId).run F chunks = .ok events) :
    shaped events = endsProperly F adapter.protocol (sseFrames adapter.limits chunks) := by
  obtain ⟨e, es, e', last, hfeed, hfinish, rfl⟩ := run_eq_ok.mp h
  unfold UpstreamAdapter.streamDecoder at hfeed
  cases hprotocol : adapter.protocol <;> rw [hprotocol] at hfeed
  all_goals
    dsimp only at hfeed
    obtain ⟨d, rfl, hd⟩ := feed_wrap _ (fun _ _ => rfl) hfeed
    obtain ⟨d', hd', -⟩ := wrap_eq_ok.mp hfinish
    exact shaped_eq hd hd'

/-! ## Complete bodies -/

/-- `Created`, deltas, a usage if there is one, `Completed`. -/
def responseEvents (id : String) (deltas : Events) (usage : Option Usage) : Events :=
  .created id :: (deltas ++ (usage.map CanonicalEvent.usage).toList ++ [.completed])

/-- Whether decoding a body gives a usage: always, or if the body has one. -/
def reportsUsage (F : FloatReader) (protocol : UpstreamProtocol) (body : Bytes) : Bool :=
  match protocol with
  | .openAiResponses | .anthropic => true
  | .openAiChat | .azureOpenAi => ((readSlice F body).toOption.bind (·.get? "usage")).isSome
  | .gemini => ((readSlice F body).toOption.bind (·.get? "usageMetadata")).isSome

section Bodies

variable {limits : UpstreamLimits} {events events' : Events} {itemId : String} {part : Json}
  {entry : Json × Nat} {usage : Usage}

theorem addsDeltas_pushText {text : String} {reasoning : Bool}
    (h : pushText events itemId text reasoning limits = .ok events') :
    AddsDeltas events events' := by
  obtain ⟨-, -, -, rfl⟩ := pushText_eq_ok.mp h
  exact .singleton (isDelta_textEvent _ _ _)

theorem addsDeltas_pushTool {callId name delta : String}
    (h : pushTool events itemId callId name delta limits = .ok events') :
    AddsDeltas events events' := by
  obtain ⟨-, -, -, -, -, rfl⟩ := pushTool_eq_ok.mp h
  exact .singleton rfl

theorem addsDeltas_decodeMessagePart
    (h : decodeMessagePart itemId limits events part = .ok events') :
    AddsDeltas events events' := by
  unfold decodeMessagePart at h
  split at h
  · split at h
    · exact addsDeltas_pushText h
    · cases h
      exact .refl _
  · cases h
    exact .refl _

theorem addsDeltas_decodeSummaryPart
    (h : decodeSummaryPart itemId limits events part = .ok events') :
    AddsDeltas events events' := by
  unfold decodeSummaryPart at h
  split at h
  · exact addsDeltas_pushText h
  · cases h
    exact .refl _

theorem addsDeltas_decodeResponsesOutput
    (h : decodeResponsesOutput limits events entry = .ok events') :
    AddsDeltas events events' := by
  simp only [decodeResponsesOutput, do_ok] at h
  obtain ⟨kind, -, -, h⟩ := h
  unfold decodeOutputItem at h
  split at h
  · obtain ⟨content, -, h⟩ := do_eq_ok.mp h
    exact Outcome.rel_of_foldlM (R := AddsDeltas) .refl .trans (addsDeltas_decodeMessagePart) h
  · split at h
    · exact Outcome.rel_of_foldlM (R := AddsDeltas) .refl .trans (addsDeltas_decodeSummaryPart) h
    · cases h
      exact .refl _
  · simp only [do_eq_ok] at h
    obtain ⟨callId, -, name, -, arguments, -, h⟩ := h
    exact addsDeltas_pushTool h
  · cases h
    exact .refl _

theorem addsDeltas_decodeAnthropicBlock
    (h : decodeAnthropicBlock limits events entry = .ok events') :
    AddsDeltas events events' := by
  unfold decodeAnthropicBlock at h
  dsimp only at h
  split at h
  · obtain ⟨text, -, h⟩ := do_eq_ok.mp h
    exact addsDeltas_pushText h
  · obtain ⟨thinking, -, h⟩ := do_eq_ok.mp h
    exact addsDeltas_pushText h
  · simp only [do_eq_ok] at h
    obtain ⟨callId, -, name, -, h⟩ := h
    exact addsDeltas_pushTool h
  · cases h
    exact .refl _

theorem endResponse_eq_ok (h : endResponse events usage limits = .ok events') :
    events' = events ++ [.usage usage, .completed] := by
  simp only [endResponse, do_eq_ok, pushEvent_eq_ok] at h
  obtain ⟨next, ⟨-, rfl⟩, -, rfl⟩ := h
  rw [List.append_assoc]
  rfl

theorem responseEvents_of_endResponse {id : String} {all : Events}
    (hadds : AddsDeltas [.created id] events) (h : endResponse events usage limits = .ok all) :
    ∃ deltas, AllDeltas deltas ∧ all = responseEvents id deltas (some usage) := by
  obtain ⟨deltas, hdeltas, rfl⟩ := hadds
  refine ⟨deltas, hdeltas, ?_⟩
  rw [endResponse_eq_ok h, responseEvents, List.append_assoc deltas]
  rfl

/-- A document response, from its one document and its end. -/
theorem responseEvents_of_document {created : Bool} {responseId : String} {usage : Option Usage}
    (hcreated : created = true) (heffect : DocumentEffect false created out)
    (hlast : last = closingEvents created responseId usage) :
    ∃ id deltas, AllDeltas deltas ∧ out ++ last = responseEvents id deltas usage := by
  subst hcreated hlast
  cases heffect with
  | creates id hdeltas =>
    refine ⟨id, _, hdeltas, ?_⟩
    rw [responseEvents, closingEvents, if_pos rfl, List.nil_append, List.cons_append,
      List.append_assoc]

end Bodies

/-- **The shape of a decoded body.** -/
theorem decodeResponse_events {adapter : UpstreamAdapter} {body : Bytes} {events : Events}
    (h : adapter.decodeResponse F requestId body = .ok events) :
    ∃ id deltas usage, AllDeltas deltas ∧ events = responseEvents id deltas usage ∧
      usage.isSome = reportsUsage F adapter.protocol body := by
  obtain ⟨protocol, baseUrl, limits⟩ := adapter
  have hazure : decodeAzureResponse F requestId body limits = .ok events →
      ∃ id deltas usage, AllDeltas deltas ∧ events = responseEvents id deltas usage ∧
        usage.isSome = ((readSlice F body).toOption.bind (·.get? "usage")).isSome := by
    intro h
    simp only [decodeAzureResponse, do_ok, Prod.exists] at h
    obtain ⟨-, value, hvalue, decoder, decoded, hdecode, emitted, -, decoder', completed, hfinish,
      emitted', -, rfl⟩ := h
    have hdecodes := decodes_decodeNonStream hdecode
    obtain ⟨id, deltas, hdeltas, hevents⟩ :=
      responseEvents_of_document hdecodes.created hdecodes.effect
      (finish_eq_ok hdecodes.completed hfinish)
    exact ⟨id, deltas, _, hdeltas, hevents, hdecodes.usage.trans (by rw [hvalue]; rfl)⟩
  have hopen : ∀ {x : Result Unit} {k : Result Events}, (do x; k) = .ok events → k = .ok events :=
    fun h => (do_eq_ok.mp h).elim fun _ h => h.2
  simp only [UpstreamAdapter.decodeResponse] at h
  have h := hopen h
  cases protocol with
  | openAiResponses =>
    simp only [decodeResponsesComplete, do_ok] at h
    obtain ⟨root, -, -, -, output, -, -, events', hfold, usage, -, hend⟩ := h
    obtain ⟨deltas, hdeltas, rfl⟩ := responseEvents_of_endResponse
      (Outcome.rel_of_foldlM (R := AddsDeltas) .refl .trans
        (addsDeltas_decodeResponsesOutput) hfold) hend
    exact ⟨_, deltas, some usage, hdeltas, rfl, rfl⟩
  | openAiChat | azureOpenAi => exact hazure (hopen h)
  | anthropic =>
    simp only [decodeAnthropicComplete, do_ok] at h
    obtain ⟨root, -, -, -, content, -, -, events', hfold, usage, -, hend⟩ := h
    obtain ⟨deltas, hdeltas, rfl⟩ := responseEvents_of_endResponse
      (Outcome.rel_of_foldlM (R := AddsDeltas) .refl .trans (addsDeltas_decodeAnthropicBlock) hfold)
      hend
    exact ⟨_, deltas, some usage, hdeltas, rfl, rfl⟩
  | gemini =>
    have h := hopen h
    simp only [decodeGeminiResponse, do_ok, Prod.exists] at h
    obtain ⟨-, value, hvalue, decoder, decoded, hdecode, emitted, -, decoder', completed, hfinish,
      emitted', -, rfl⟩ := h
    have hdecodes := decodes_decodeValue hdecode
    obtain ⟨id, deltas, hdeltas, hevents⟩ :=
      responseEvents_of_document hdecodes.created hdecodes.effect
      (finish_eq_ok hdecodes.completed hfinish)
    exact ⟨id, deltas, _, hdeltas, hevents, hdecodes.usage.trans
      (by rw [reportsUsage, hvalue]; rfl)⟩

end Wokcore.Protocols.Upstream
