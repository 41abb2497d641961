import Wokcore.Protocols.Route
import Wokcore.Protocols.Upstream.StreamDecoder

/-!
# How the transport cuts a stream

A stream decoder should not care how its transport cuts the bytes of a response. The counters and
the frames do not: `StreamDecoder.receive_append` and the loops over frames read two chunks as they
read one. What depends on the cut is the check at the start of every push. A decoder that has seen
the last frame of its response refuses the next chunk, even if that chunk is empty or holds only the
rest of a line end. `UpstreamStreamDecoder.run_iff_not_terminal` says that this is all.
-/

set_option autoImplicit false

namespace Wokcore.Protocols

open Lib

theorem Stream.SseDecoder.push_append {d d' : SseDecoder} {a b : Bytes} {out : List SseFrame}
    (h : d.push (a ++ b) = (d', .ok out)) :
    ∃ e o p, d.push a = (e, .ok o) ∧ e.push b = (d', .ok p) ∧ out = o ++ p := by
  have hd : d.failed = false := by
    by_contra hfailed
    rw [push, if_pos (by simpa using hfailed)] at h
    cases h
  obtain ⟨hfeed, hlen⟩ := pushInner_eq_ok.mp ((push_eq_ok hd).mp h)
  obtain ⟨e, o, p, ha, hb, rfl⟩ := feed_append.mp hfeed
  have hsame := kept_feed ha
  rw [List.length_append] at hlen
  refine ⟨e, o, p, (push_eq_ok hd).mpr (pushInner_eq_ok.mpr ⟨ha, by omega⟩),
    (push_eq_ok (hsame.failed.trans hd)).mpr (pushInner_eq_ok.mpr ⟨hb, ?_⟩), rfl⟩
  rw [hsame.maxFramesPerPush]
  omega

namespace Upstream

open Protocols.Stream Outcome Result

namespace StreamDecoder

variable {σ : Type} {d d' : StreamDecoder σ} {frames : List SseFrame} {chunk : Bytes}

theorem receive_eq_ok : d.receive chunk = .ok (d', frames) ↔
      satAdd u64Max d.receivedBytes chunk.length ≤ d.limits.maxResponseBodyBytes ∧
      ∃ sse, d.sse.push chunk = (sse, .ok frames) ∧
        d' = { d with sse, receivedBytes := satAdd u64Max d.receivedBytes chunk.length } := by
  unfold receive
  rw [do_eq_ok]
  constructor
  · rintro ⟨⟨⟩, hroom, h⟩
    refine ⟨by simpa using requireThat_eq_ok.mp hroom, ?_⟩
    cases hp : d.sse.push chunk with
    | mk sse r =>
      cases r with
      | error e => rw [hp] at h; cases h
      | ok fs =>
        rw [hp] at h
        cases h
        exact ⟨sse, rfl, rfl⟩
  · rintro ⟨hroom, sse, hp, rfl⟩
    exact ⟨(), requireThat_eq_ok.mpr (by simpa using hroom), by rw [hp]⟩

theorem receive_append {a b : Bytes} (h : d.receive (a ++ b) = .ok (d', frames)) :
    ∃ e o p, d.receive a = .ok (e, o) ∧ e.receive b = .ok (d', p) ∧ frames = o ++ p := by
  obtain ⟨hroom, sse, hp, rfl⟩ := receive_eq_ok.mp h
  obtain ⟨sse', o, p, ha, hb, rfl⟩ := SseDecoder.push_append hp
  rw [List.length_append] at hroom
  refine ⟨{ d with sse := sse', receivedBytes := satAdd u64Max d.receivedBytes a.length }, o, p,
    receive_eq_ok.mpr ⟨Nat.le_trans (satAdd_le_satAdd _ _ _ _) hroom, sse', ha, rfl⟩, ?_, rfl⟩
  refine receive_eq_ok.mpr ⟨?_, sse, hb, ?_⟩
  · rw [satAdd_satAdd]
    exact hroom
  · rw [satAdd_satAdd, List.length_append]

/-- What is known of the response and the count of events play no part in receiving. -/
theorem receive_with (h : d.receive chunk = .ok (d', frames)) (response : σ) (emittedEvents : Nat) :
    ({ d with response, emittedEvents } : StreamDecoder σ).receive chunk =
      .ok ({ d' with response, emittedEvents }, frames) := by
  obtain ⟨hroom, sse, hp, rfl⟩ := receive_eq_ok.mp h
  exact receive_eq_ok.mpr ⟨hroom, sse, hp, rfl⟩

/-- Receiving leaves everything alone but the frames and the count of bytes. -/
theorem receive_keeps (h : d.receive chunk = .ok (d', frames)) :
    d'.response = d.response ∧ d'.emittedEvents = d.emittedEvents ∧ d'.limits = d.limits := by
  obtain ⟨-, sse, -, rfl⟩ := receive_eq_ok.mp h
  exact ⟨rfl, rfl, rfl⟩

theorem account_eq_ok {added : Nat} :
    d.account added = .ok d' ↔
      satAdd u64Max d.emittedEvents added ≤ d.limits.maxEvents ∧
        d' = { d with emittedEvents := satAdd u64Max d.emittedEvents added } := by
  unfold account
  rw [do_eq_ok]
  constructor
  · rintro ⟨⟨⟩, hroom, h⟩
    cases h
    exact ⟨by simpa using requireThat_eq_ok.mp hroom, rfl⟩
  · rintro ⟨hroom, rfl⟩
    exact ⟨(), requireThat_eq_ok.mpr (by simpa using hroom), rfl⟩

end StreamDecoder

/-! ## Loops over frames -/

theorem grows_pushEvent (event : CanonicalEvent) (limits : UpstreamLimits) :
    Grows fun events => pushEvent events event limits := by
  intro acc more r h
  simp only [pushEvent] at h ⊢
  split at h
  · cases h
  · next hroom =>
    cases h
    refine ⟨[event], rfl, if_neg fun hfull => hroom ?_⟩
    rw [List.length_append]
    omega

theorem grows_pushText (itemId text : String) (reasoning : Bool) (limits : UpstreamLimits) :
    Grows fun events => pushText events itemId text reasoning limits :=
  .after fun _ => .after fun _ => grows_pushEvent _ _

theorem grows_pushTool (itemId callId name delta : String) (limits : UpstreamLimits) :
    Grows fun events => pushTool events itemId callId name delta limits := by
  repeat refine .after fun _ => ?_
  exact grows_pushEvent _ _

variable (F : FloatReader) (limits : UpstreamLimits)

theorem ResponsesStream.appending_decodeFrame :
    Appending (ResponsesStream.decodeFrame F limits) := by
  intro s frame
  refine .after fun value => .after fun kind => ?_
  dsimp only
  cases ResponsesKind.ofString kind with
  | created | completed => exact .after fun _ => .after fun _ => .appends _ _
  | itemAdded => exact .after fun _ => .silent _
  | textDelta | reasoningDelta =>
    exact .after fun _ => .after fun _ => .after fun _ => .returning (grows_pushText _ _ _ _) s
  | argumentsDelta =>
    repeat refine .after fun _ => ?_
    exact .returning (grows_pushTool _ _ _ _ _) s
  | failed => exact .fails _
  | other => exact .silent _

theorem AnthropicStream.grows_decodeDelta (delta : Json) (block : AnthropicBlock)
    (kind : DeltaKind) : Grows fun events => decodeDelta limits events delta block kind := by
  unfold decodeDelta
  split
  · exact .after fun _ => grows_pushText _ _ _ _
  · exact .after fun _ => grows_pushText _ _ _ _
  · exact .after fun _ => grows_pushTool _ _ _ _ _
  · exact fun _ _ _ h => nomatch h

theorem AnthropicStream.appending_decodeFrame :
    Appending (AnthropicStream.decodeFrame F limits) := by
  intro s frame
  refine .after fun value => .after fun kind => ?_
  dsimp only
  cases AnthropicKind.ofString kind with
  | messageStart =>
    repeat refine .after fun _ => ?_
    exact .appends _ _
  | blockStart =>
    repeat refine .after fun _ => ?_
    exact .silent _
  | blockDelta =>
    repeat refine .after fun _ => ?_
    exact .returning (grows_decodeDelta _ _ _ _) s
  | messageDelta => exact .after fun _ => .after fun _ => .silent _
  | messageStop => exact .after fun _ => .appends _ _
  | error => exact .fails _
  | other => exact .silent _

theorem AzureStream.appending_decodeFrame : Appending (AzureStream.decodeFrame F limits) := by
  intro s frame
  unfold decodeFrame
  dsimp only
  split
  · exact .fails _
  · split
    · exact .silent _
    · exact .after fun _ => .after fun _ => .after fun _ => .appends _ _

theorem GeminiStream.appending_decodeFrame : Appending (GeminiStream.decodeFrame F limits) :=
  fun _ _ => .after fun _ => .after fun _ => .after fun _ => .appends _ _

/-! ## Pushes in two pieces -/

namespace StreamDecoder

variable {σ : Type} {closed : σ → Bool} {d d' : StreamDecoder σ}

section Counted

variable {decodeFrame : UpstreamLimits → σ × Events → SseFrame → Result (σ × Events)}

theorem pushCounted_eq_ok {chunk : Bytes} {out : Events} :
    pushCounted closed decodeFrame d chunk = .ok (d', out) ↔ closed d.response = false ∧
      ∃ e frames response, d.receive chunk = .ok (e, frames) ∧
        frames.foldlM (decodeFrame e.limits) (e.response, []) = .ok (response, out) ∧
        account { e with response } out.length = .ok d' := by
  unfold pushCounted
  simp only [do_ok, checks_ok, Bool.not_eq_true', Prod.exists, Prod.mk.injEq]
  constructor
  · rintro ⟨hopen, e, frames, hreceive, response, out', hloop, d'', haccount, rfl, rfl⟩
    exact ⟨hopen, e, frames, response, hreceive, hloop, haccount⟩
  · rintro ⟨hopen, e, frames, response, hreceive, hloop, haccount⟩
    exact ⟨hopen, e, frames, hreceive, response, out, hloop, d', haccount, rfl, rfl⟩

theorem cuttable_pushCounted (happ : ∀ limits, Appending (decodeFrame limits)) :
    Cuttable (pushCounted closed decodeFrame) fun d => closed d.response where
  opened h := (pushCounted_eq_ok.mp h).1
  split := by
    intro d d' a b out h
    obtain ⟨hopen, e, frames, response, hreceive, hloop, haccount⟩ := pushCounted_eq_ok.mp h
    obtain ⟨x, f, g, ha, hb, rfl⟩ := receive_append hreceive
    obtain ⟨hresponse, hemitted, hlimits⟩ := receive_keeps hb
    rw [hresponse, hlimits] at hloop
    obtain ⟨middle, o, p, ho, hp, rfl⟩ := (happ x.limits).foldlM_append hloop
    obtain ⟨hroom, rfl⟩ := account_eq_ok.mp haccount
    simp only [hemitted, hlimits, List.length_append] at hroom
    have hfirst : satAdd u64Max x.emittedEvents o.length ≤ x.limits.maxEvents :=
      Nat.le_trans (satAdd_le_satAdd _ _ _ _) hroom
    refine ⟨_, o, p, pushCounted_eq_ok.mpr ⟨hopen, x, f, middle, ha, ho, account_eq_ok.mpr
      ⟨hfirst, rfl⟩⟩, rfl, fun hmiddle => ?_⟩
    refine pushCounted_eq_ok.mpr ⟨hmiddle, _, g, response, receive_with hb middle _, ?_, ?_⟩
    · rw [hlimits]
      exact hp
    · refine account_eq_ok.mpr ⟨?_, ?_⟩
      · show satAdd u64Max (satAdd u64Max x.emittedEvents o.length) p.length ≤ e.limits.maxEvents
        rw [satAdd_satAdd, hlimits]
        exact hroom
      · rw [hemitted, List.length_append, ← satAdd_satAdd]

end Counted

section Each

variable {decodeFrame : UpstreamLimits → (σ × Nat) × Events → SseFrame →
  Result ((σ × Nat) × Events)}

theorem pushEach_eq_ok {chunk : Bytes} {out : Events} :
    pushEach closed decodeFrame d chunk = .ok (d', out) ↔ closed d.response = false ∧
      ∃ e frames response emittedEvents, d.receive chunk = .ok (e, frames) ∧
        frames.foldlM (decodeFrame e.limits) ((e.response, e.emittedEvents), []) =
          .ok ((response, emittedEvents), out) ∧
        d' = { e with response, emittedEvents } := by
  unfold pushEach
  simp only [do_ok, checks_ok, Bool.not_eq_true', Prod.exists, Prod.mk.injEq]
  constructor
  · rintro ⟨hopen, e, frames, hreceive, response, emittedEvents, out', hloop, rfl, rfl⟩
    exact ⟨hopen, e, frames, response, emittedEvents, hreceive, hloop, rfl⟩
  · rintro ⟨hopen, e, frames, response, emittedEvents, hreceive, hloop, rfl⟩
    exact ⟨hopen, e, frames, hreceive, response, emittedEvents, out, hloop, rfl, rfl⟩

theorem cuttable_pushEach (happ : ∀ limits, Appending (decodeFrame limits)) :
    Cuttable (pushEach closed decodeFrame) fun d => closed d.response where
  opened h := (pushEach_eq_ok.mp h).1
  split := by
    intro d d' a b out h
    obtain ⟨hopen, e, frames, response, emittedEvents, hreceive, hloop, rfl⟩ := pushEach_eq_ok.mp h
    obtain ⟨x, f, g, ha, hb, rfl⟩ := receive_append hreceive
    obtain ⟨hresponse, hemitted, hlimits⟩ := receive_keeps hb
    rw [hresponse, hemitted, hlimits] at hloop
    obtain ⟨⟨middle, count⟩, o, p, ho, hp, rfl⟩ := (happ x.limits).foldlM_append hloop
    refine ⟨_, o, p, pushEach_eq_ok.mpr ⟨hopen, x, f, middle, count, ha, ho, rfl⟩, rfl,
      fun hmiddle => ?_⟩
    refine pushEach_eq_ok.mpr ⟨hmiddle, _, g, response, emittedEvents, receive_with hb middle count,
      ?_, rfl⟩
    rw [hlimits]
    exact hp

end Each

theorem receive_nil {limits : UpstreamLimits} {response : σ} :
    (fresh limits response).receive [] = .ok (fresh limits response, []) :=
  receive_eq_ok.mpr ⟨Nat.zero_le _, _, rfl, rfl⟩

end StreamDecoder

/-! ## Five protocols -/

namespace UpstreamStreamDecoder

variable {d : UpstreamStreamDecoder}

/-- The last frame of the response has been decoded: a further push is refused. -/
def terminal : UpstreamStreamDecoder → Bool
  | .responses d => d.response.completed
  | .openAiChat d => d.response.closed
  | .anthropic d => d.response.completed
  | .gemini d => d.response.closed
  | .azure d => d.response.closed

theorem wrap_eq_ok {δ : Type} {make : δ → UpstreamStreamDecoder} {r : Result (δ × Events)}
    {out : Events} : wrap make r = .ok (d, out) ↔ ∃ x, r = .ok (x, out) ∧ d = make x := by
  cases r with
  | error e => exact ⟨fun h => (nomatch h), fun ⟨_, h, _⟩ => (nomatch h)⟩
  | ok q =>
    constructor
    · intro h
      cases h
      exact ⟨q.1, rfl, rfl⟩
    · rintro ⟨x, h, rfl⟩
      cases h
      rfl

/-- A push that is one of several kinds reads a chunk as it reads its two parts if each of them
    does. -/
theorem cuttable_of_wrap
    {push : UpstreamStreamDecoder → Bytes → Result (UpstreamStreamDecoder × Events)}
      {closed : UpstreamStreamDecoder → Bool}
        (h : ∀ d, ∃ (δ : Type) (make : δ → UpstreamStreamDecoder) (x : δ)
        (push' : δ → Bytes → Result (δ × Events)) (closed' : δ → Bool), Cuttable push' closed' ∧
        d = make x ∧ (∀ y chunk, push (make y) chunk = wrap make (push' y chunk)) ∧ ∀ y,
        closed (make y) = closed' y) :
    Cuttable push closed where
  opened := by
    intro d a r hpush
    obtain ⟨δ, make, x, push', closed', hcut, rfl, hwrap, hclosed⟩ := h d
    rw [hwrap] at hpush
    obtain ⟨y, hy, -⟩ := wrap_eq_ok.mp hpush
    rw [hclosed]
    exact hcut.opened hy
  split := by
    intro d d' a b out hpush
    obtain ⟨δ, make, x, push', closed', hcut, rfl, hwrap, hclosed⟩ := h d
    rw [hwrap] at hpush
    obtain ⟨z, hz, rfl⟩ := wrap_eq_ok.mp hpush
    obtain ⟨y, o, p, ha, rfl, hb⟩ := hcut.split hz
    simp only [hwrap]
    refine ⟨make y, o, p, wrap_eq_ok.mpr ⟨y, ha, rfl⟩, rfl, fun hy => ?_⟩
    rw [hwrap]
    exact wrap_eq_ok.mpr ⟨z, hb (hclosed y ▸ hy), rfl⟩

/-- **Two chunks as one.** Every decoder reads a chunk as it reads its two parts, unless it has seen
    its last frame in between. -/
theorem cuttable_push : Cuttable (push F) terminal := by
  refine cuttable_of_wrap fun d => ?_
  have hazure := @StreamDecoder.cuttable_pushEach _ AzureStream.closed _
    (AzureStream.appending_decodeFrame F)
  cases d with
  | responses x =>
    exact ⟨_, .responses, x, _, _, StreamDecoder.cuttable_pushCounted
      (ResponsesStream.appending_decodeFrame F), rfl, fun _ _ => rfl, fun _ => rfl⟩
  | anthropic x =>
    exact ⟨_, .anthropic, x, _, _, StreamDecoder.cuttable_pushCounted
      (AnthropicStream.appending_decodeFrame F), rfl, fun _ _ => rfl, fun _ => rfl⟩
  | gemini x =>
    exact ⟨_, .gemini, x, _, _, StreamDecoder.cuttable_pushEach
      (GeminiStream.appending_decodeFrame F), rfl, fun _ _ => rfl, fun _ => rfl⟩
  | openAiChat x => exact ⟨_, .openAiChat, x, _, _, hazure, rfl, fun _ _ => rfl, fun _ => rfl⟩
  | azure x => exact ⟨_, .azure, x, _, _, hazure, rfl, fun _ _ => rfl, fun _ => rfl⟩

theorem push_nil (adapter : UpstreamAdapter) (requestId : String) :
    (adapter.streamDecoder requestId).push F [] = .ok (adapter.streamDecoder requestId, []) := by
  unfold UpstreamAdapter.streamDecoder
  cases adapter.protocol with
  | openAiResponses | anthropic =>
    exact wrap_eq_ok.mpr ⟨_, StreamDecoder.pushCounted_eq_ok.mpr
      ⟨rfl, _, [], _, StreamDecoder.receive_nil, rfl,
        StreamDecoder.account_eq_ok.mpr ⟨Nat.zero_le _, rfl⟩⟩, rfl⟩
  | openAiChat | gemini | azureOpenAi =>
    exact wrap_eq_ok.mpr ⟨_, StreamDecoder.pushEach_eq_ok.mpr
      ⟨rfl, _, [], _, _, StreamDecoder.receive_nil, rfl, rfl⟩, rfl⟩

theorem run_eq_ok {F : FloatReader} {chunks : List Bytes} {events : Events} :
    d.run F chunks = .ok events ↔ ∃ e es e' last, feed (push F) d chunks = .ok (e, es) ∧
      e.finish = .ok (e', last) ∧ events = es ++ last := by
  unfold run
  simp only [do_ok, Prod.exists]
  constructor
  · rintro ⟨e, es, hfeed, e', last, hfinish, rfl⟩
    exact ⟨e, es, e', last, hfeed, hfinish, rfl⟩
  · rintro ⟨e, es, e', last, hfeed, hfinish, rfl⟩
    exact ⟨e, es, hfeed, e', last, hfinish, rfl⟩

/-- A body that is decoded in one push is decoded in pieces, to the same events, exactly if the
    decoder has not seen its last frame when a further piece is pushed. -/
theorem run_iff_not_terminal (F : FloatReader) (adapter : UpstreamAdapter) (requestId : String)
    (chunks : List Bytes) (events : Events)
    (h : (adapter.streamDecoder requestId).run F [chunks.flatten] = .ok events) :
    (adapter.streamDecoder requestId).run F chunks = .ok events ↔
      ∀ before chunk after, chunks = before ++ chunk :: after → before ≠ [] →
        ∀ d es, (adapter.streamDecoder requestId).push F before.flatten = .ok (d, es) →
          d.terminal = false := by
  obtain ⟨d, es, d', last, hone, hfinish, rfl⟩ := run_eq_ok.mp h
  rw [feed_singleton] at hone
  by_cases hne : chunks = []
  · subst hne
    rw [List.flatten_nil, push_nil] at hone
    cases hone
    refine ⟨fun _ before chunk after hcut => ?_, fun _ =>
      run_eq_ok.mpr ⟨_, [], d', last, rfl, hfinish, rfl⟩⟩
    exact absurd hcut (by simp)
  · rw [← feed_cut_iff (cuttable_push F) hne hone]
    constructor
    · intro hrun
      obtain ⟨e, es', e', last', hall, -, -⟩ := run_eq_ok.mp hrun
      obtain ⟨rfl, rfl⟩ := (cuttable_push F).unique hne hall hone
      exact hall
    · intro hall
      exact run_eq_ok.mpr ⟨d, es, d', last, hall, hfinish, rfl⟩

end UpstreamStreamDecoder

end Upstream

end Wokcore.Protocols
