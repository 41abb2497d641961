import Wokcore.Lib.Echo
import Wokcore.Protocols.Outbound.Order

/-!
# From a client codec to a stream decoder

The gateway speaks three of its protocols on both sides: a codec writes for clients what a stream
decoder reads from upstreams. This module is about what lies in between when the one is connected to
the other. The frames of a codec arrive as the frames of the decoder (`receive_frames`), and the
text of a frame is read as the document that is read of its value (`readText_print`), as long as the
frames are within the limits of the decoder.
-/

set_option autoImplicit false

namespace Wokcore.Protocols.Loopback

open Lib Protocols.Stream Upstream Outbound SseDecoder List StreamDecoder UpstreamStreamDecoder
  Outcome Result

/-! ## Frames -/

/-- A frame as it is written: its event and its text. -/
abbrev FrameText := Option String × List Char

def frameBytes (ps : List FrameText) : Bytes := ps.flatMap fun p => frameText p.1 p.2

def framesOf (ps : List FrameText) : List SseFrame := ps.map fun p => ⟨p.1, .ofList p.2⟩

/-- Frames that are within the limits of a decoder, if it gets them in one push. -/
structure Fits (limits : UpstreamLimits) (ps : List FrameText) : Prop where
  each : ∀ p ∈ ps, (frameLines p.1 p.2).length ≤ limits.maxStreamFrameBytes
  count : ps.length ≤ limits.maxEvents
  bytes : (frameBytes ps).length ≤ limits.maxResponseBodyBytes

section Receive

variable {σ : Type} {limits : UpstreamLimits} {ps : List FrameText} {d : StreamDecoder σ}

theorem Fits.feed (h : Fits limits ps) (hwritten : ∀ p ∈ ps, Written p) :
    ∃ sse, feed byteStep (.withLimits limits.maxStreamFrameBytes limits.maxEvents) (frameBytes ps) =
      .ok (sse, framesOf ps) ∧ Ready sse := by
  have hready := ready_withLimits limits.maxStreamFrameBytes limits.maxEvents
  cases ps with
  | nil => exact ⟨_, rfl, hready⟩
  | cons p ps =>
    have hroom : 0 < limits.maxEvents := Nat.lt_of_lt_of_le (Nat.succ_pos ps.length) h.count
    exact feed_frames hready hroom hwritten h.each

/-- **What arrives.** A fresh decoder receives the frames, one by one and nothing else. -/
theorem receive_frames (h : Fits limits ps) (hwritten : ∀ p ∈ ps, Written p) (s : σ) :
    ∃ sse receivedBytes, (fresh limits s).receive (frameBytes ps) =
      .ok ({ fresh limits s with sse, receivedBytes }, framesOf ps) ∧
      Ready sse ∧ sse.failed = false := by
  obtain ⟨sse, hfeed, hready⟩ := h.feed hwritten
  have hpush := pushInner_eq_ok.mpr ⟨hfeed, by rw [framesOf, length_map]; exact h.count⟩
  refine ⟨sse, _, receive_eq_ok.mpr ⟨?_, sse, (push_eq_ok rfl).mpr hpush, rfl⟩, hready,
    (kept_feed hfeed).failed⟩
  exact Nat.le_trans (Nat.min_le_left _ _) (by simpa [fresh] using h.bytes)

theorem endSse_of_ready (hready : Ready d.sse) (hfailed : d.sse.failed = false) :
    d.endSse = .ok { d with sse := d.sse.finish.1 } := by
  have hfinish := hready.finish hfailed
  unfold endSse
  cases h : d.sse.finish with
  | mk sse r =>
    rw [h] at hfinish
    cases hfinish
    rfl

end Receive

/-! ## Documents -/

section Documents

variable {F : FloatReader} {limits : UpstreamLimits} {v : Value} {w : Json} {ps : List SseValue}
  {ts : List FrameText} {p : SseValue} {ds : List Json} {fs : Members} {k : String}

/-- The value is read as `w` where it arrives. The size is that of the text of what is read, in
    which floats may have other texts than the sender wrote. -/
structure Carried (F : FloatReader) (limits : UpstreamLimits) (v : Value) (w : Json) : Prop where
  depth : v.tree.depth ≤ maxNesting
  document : ReadAs F v.tree w
  size : w.toVec.length ≤ limits.maxResponseBodyBytes

/-- A decoder can read the value: it is not nested too deep, its numbers can be read, and it is not
    too long. -/
def Readable (F : FloatReader) (limits : UpstreamLimits) (v : Value) : Prop := ∃ w,
    Carried F limits v w

theorem Carried.readText (h : Carried F limits v w) :
    readText F (.ofList v.tree.print) = .ok w := by
  unfold Upstream.readText
  rw [String.toList_ofList, h.document.parse_print h.depth, Option.map_some, h.document.norm_eq]
  rfl

/-- The text of the frame of a value. -/
def valueText (p : SseValue) : FrameText := (safeEvent p.1, p.2.tree.print)

theorem frameBytes_valueText (ps : List SseValue) :
    frameBytes (ps.map valueText) = ps.flatMap fun p => encodeSse p.1 p.2 := by
  rw [frameBytes, flatMap_map]
  rfl

theorem written_valueText (ps : List SseValue) : ∀ p ∈ ps.map valueText, Written p := by
  intro p hp
  obtain ⟨q, -, rfl⟩ := mem_map.mp hp
  exact written_encodeSse q

theorem exists_carried (h : ∀ p ∈ ps, Readable F limits p.2) :
    ∃ ds, Forall₂ (fun p => Carried F limits p.2) ps ds := by
  induction ps with
  | nil => exact ⟨[], .nil⟩
  | cons p ps ih =>
    obtain ⟨d, hd⟩ := h p (by simp)
    obtain ⟨ds, hds⟩ := ih fun q hq => h q (by simp [hq])
    exact ⟨d :: ds, .cons hd hds⟩

/-- A loop that reads the text of each frame is a loop over what arrives. -/
theorem foldlM_framesOf {ρ : Type} (decodeFrame : ρ → SseFrame → Result ρ)
    {decodeValue : ρ → Json → Result ρ}
    (hframe : ∀ q frame, decodeFrame q frame = (readText F frame.data).bind (decodeValue q))
    (h : Forall₂ (fun p => Carried F limits p.2) ps ds) (q : ρ) :
    (framesOf (ps.map valueText)).foldlM decodeFrame q = ds.foldlM decodeValue q := by
  induction h generalizing q with
  | nil => rfl
  | @cons p d ps ds hd hds ih =>
    have hstep : decodeFrame q ⟨(valueText p).1, .ofList (valueText p).2⟩ = decodeValue q d := by
      rw [hframe]
      show (readText F (.ofList p.2.tree.print)).bind _ = _
      rw [hd.readText]
      rfl
    rw [map_cons, framesOf, map_cons, foldlM_cons, foldlM_cons, hstep]
    cases decodeValue q d with
    | error e => rfl
    | ok r => exact ih r

/-- What a codec sent is within the limits of the decoder that gets it. -/
structure WithinLimits (F : FloatReader) (limits : UpstreamLimits) (ps : List SseValue) : Prop where
  fits : Fits limits (ps.map valueText)
  readable : ∀ p ∈ ps, Readable F limits p.2

/-- Limits with room for everything that is sent. -/
def roomForTexts (ts : List FrameText) : UpstreamLimits :=
  { UpstreamLimits.default with
    maxStreamFrameBytes := (frameBytes ts).length
    maxResponseBodyBytes := (frameBytes ts).length }

def roomFor (ps : List SseValue) : UpstreamLimits := roomForTexts (ps.map valueText)

theorem length_frameText_le {ps : List FrameText} {p : FrameText} (h : p ∈ ps) :
    (frameText p.1 p.2).length ≤ (frameBytes ps).length := by
  obtain ⟨before, after, rfl⟩ := append_of_mem h
  simp only [frameBytes, flatMap_append, flatMap_cons, length_append]
  omega

theorem fits_roomForTexts (hcount : ts.length ≤ 4096) : Fits (roomForTexts ts) ts where
  each := by
    intro p hp
    refine Nat.le_trans ?_ (length_frameText_le hp)
    rw [frameText, length_append]
    exact Nat.le_add_right _ _
  count := hcount
  bytes := Nat.le_refl _

/-- The text of a value is part of its frame. -/
theorem length_toVec_le_room (h : valueText p ∈ ts) :
    p.2.tree.toVec.length ≤ (roomForTexts ts).maxResponseBodyBytes := by
  refine Nat.le_trans ?_ (length_frameText_le h)
  simp only [valueText, frameText, frameLines, length_append, Json.toVec, encodeUtf8_append]
  omega

theorem length_toVec_le_roomFor (h : p ∈ ps) :
    p.2.tree.toVec.length ≤ (roomFor ps).maxResponseBodyBytes := length_toVec_le_room
    (mem_map_of_mem h)

/-- For a reader that changes nothing, there only has to be room for what is sent. -/
theorem readable_roomForTexts (h : valueText p ∈ ts) (hdepth : p.2.tree.depth ≤ maxNesting) :
    Readable exactFloats (roomForTexts ts) p.2 :=
  ⟨p.2.tree, hdepth, readAs_tree.mpr (Json.reread_exact _), length_toVec_le_room h⟩

theorem withinLimits_roomFor (hcount : ps.length ≤ 4096)
    (hdepth : ∀ p ∈ ps, p.2.tree.depth ≤ maxNesting) :
    WithinLimits exactFloats (roomFor ps) ps where
  fits := fits_roomForTexts (by rw [length_map]; exact hcount)
  readable := fun p hp => readable_roomForTexts (mem_map_of_mem hp) (hdepth p hp)

/-- The frames of events with names. -/
def named (ws : List WireEvent) : List SseValue := ws.map fun e => (some e.1, e.2)

theorem frameBytes_named (ws : List WireEvent) :
    frameBytes ((named ws).map valueText) = sseBytes ws := by
  rw [frameBytes_valueText, named, flatMap_map]

/-- **A run over frames.** A decoder that counts its events at the end of a push gets through a
    stream exactly if it gets through its frames and has then seen the last one. -/
theorem run_counted {σ : Type} {closed : σ → Bool} {out : Events}
    (make : StreamDecoder σ → UpstreamStreamDecoder)
    {decodeFrame : UpstreamLimits → σ × Events → SseFrame → Result (σ × Events)}
    {decodeValue : σ × Events → Json → Result (σ × Events)}
    (hpush : ∀ d chunk, (make d).push F chunk =
      wrap make (pushCounted closed decodeFrame d chunk))
    (hfinish : ∀ d, (make d).finish = wrap make (do
      let d ← d.endSse
      requireThat (closed d.response)
      return (d, [])))
    (hframe : ∀ q frame, decodeFrame limits q frame = (readText F frame.data).bind (decodeValue q))
    {ws : List WireEvent} (hlimits : WithinLimits F limits (named ws))
    (hds : Forall₂ (fun p => Carried F limits p.2) (named ws) ds) {s : σ}
      (hopen : closed s = false) :
    run F (make (.fresh limits s)) [sseBytes ws] = .ok out ↔
      ∃ t, ds.foldlM decodeValue (s, []) = .ok (t, out) ∧ closed t = true ∧
        satAdd u64Max 0 out.length ≤ limits.maxEvents := by
  obtain ⟨sse, receivedBytes, hreceive, hready, hfailed⟩ := receive_frames hlimits.fits
    (written_valueText _) s
  rw [← frameBytes_named, ← foldlM_framesOf (decodeFrame limits) hframe hds, run_eq_ok]
  simp only [feed_singleton, hpush, wrap_eq_ok, pushCounted_eq_ok, hreceive,
    Except.ok.injEq, Prod.mk.injEq]
  constructor
  · rintro ⟨_, es, e', last, ⟨e, ⟨-, _, _, t, ⟨rfl, rfl⟩, hloop, haccount⟩, rfl⟩, hend, rfl⟩
    obtain ⟨hroom, rfl⟩ := account_eq_ok.mp haccount
    rw [hfinish, endSse_of_ready hready hfailed] at hend
    obtain ⟨x, hx, rfl⟩ := wrap_eq_ok.mp hend
    simp only [do_ok, checks_ok, Except.ok.injEq, Prod.mk.injEq] at hx
    obtain ⟨y, rfl, hclosed, rfl, rfl⟩ := hx
    rw [append_nil]
    exact ⟨t, hloop, hclosed, hroom⟩
  · rintro ⟨t, hloop, hclosed, hroom⟩
    have hlast : ∀ d : StreamDecoder σ, Ready d.sse → d.sse.failed = false →
        closed d.response = true → (make d).finish = .ok (make { d with sse := d.sse.finish.1 },
          []) := by
      intro d hd hf hc
      rw [hfinish, endSse_of_ready hd hf]
      refine wrap_eq_ok.mpr ⟨_, ?_, rfl⟩
      simp only [do_ok, checks_ok, Except.ok.injEq, exists_eq_left']
      exact ⟨hc, trivial⟩
    exact ⟨_, out, _, [], ⟨_, ⟨hopen, _, _, t, ⟨rfl, rfl⟩, hloop, account_eq_ok.mpr ⟨hroom, rfl⟩⟩,
      rfl⟩, hlast _ hready hfailed hclosed, (append_nil _).symm⟩

/-! ## Events -/

theorem stringAt_of_readAs {s : String} (h : ReadAs F (.obj fs) w)
    (hkey : fs.lookup k = some (.str s)) (hnd : (fs.map Prod.fst).Nodup := by simp) :
    stringAt w k = some s := by
  rw [stringAt, h.get?_str hkey hnd]
  rfl

theorem optionalU64_of_readAs {n : UInt64} (h : ReadAs F (.obj fs) w)
    (hkey : fs.lookup k = some (.ofWord n)) (hnd : (fs.map Prod.fst).Nodup := by simp) :
    Upstream.optionalU64 w k = .ok (some n) := by
  rw [Upstream.optionalU64, h.get?_ofWord hkey hnd]
  rfl

theorem indexAt_of_readAs {i : Nat} (h : ReadAs F (.obj fs) w)
    (hkey : fs.lookup k = some (.ofNat i)) (hword : i < 2 ^ 64)
    (hnd : (fs.map Prod.fst).Nodup := by simp) :
    (w.get? k).bind Json.asU64 = some i := by
  rw [h.get?_ofWord hkey hnd]
  exact congrArg some (UInt64.toNat_ofNat_of_lt hword)

/-- The checks the decoders of `upstream/mod.rs` make of an event before they give it out. -/
def Acceptable (limits : UpstreamLimits) : CanonicalEvent → Prop
  | .created responseId => validateIdentifier responseId limits.maxIdentifierBytes = .ok ()
  | .outputTextDelta itemId delta =>
    validateIdentifier itemId limits.maxIdentifierBytes = .ok () ∧
      delta.utf8ByteSize ≤ limits.maxTextDeltaBytes
  | .reasoningDelta itemId delta =>
    validateIdentifier itemId limits.maxIdentifierBytes = .ok () ∧
      delta.utf8ByteSize ≤ limits.maxTextDeltaBytes
  | .toolCallDelta itemId callId name delta =>
    validateIdentifier itemId limits.maxIdentifierBytes = .ok () ∧
    validateIdentifier callId limits.maxIdentifierBytes = .ok () ∧
    validateIdentifier name limits.maxIdentifierBytes = .ok () ∧
      delta.utf8ByteSize ≤ limits.maxToolArgumentBytes
  | _ => True

end Documents

end Wokcore.Protocols.Loopback
