import Wokcore.Protocols.Loopback.Responses
import Wokcore.Protocols.Upstream.WholeRuns

/-!
# A complete Responses body read by the Responses decoder

`encode_response` gives the response with all its output items, each with the whole of its text, and
an item comes back as one delta. But the response has an `error` member that is `null`, and
`decode_responses_complete` takes any `error` member for an error: no response the codec builds is
read back. `decodeResponse_encodeResponse` says so, and that this member is all that stands in the
way.
-/

set_option autoImplicit false

namespace Wokcore.Protocols.Loopback

open Lib Upstream Outbound Json List Option ResponsesOutput Outcome Result

/-! ## Items -/

/-- The output items of the deltas of a response: in the order they begin, each with the whole of
    its text. -/
def outputOf (deltas : Events) : List ResponsesOutput := (deltas.filterMap itemOf).foldl gather []

/-- The delta that carries the whole of an item. -/
def deltaOf : ResponsesOutput → CanonicalEvent
  | .text itemId content => .outputTextDelta itemId content
  | .reasoning itemId summary => .reasoningDelta itemId summary
  | .tool itemId callId name arguments => .toolCallDelta itemId callId name arguments

section Codec

open Outbound.ResponsesCodec

variable {context : ResponsesEncodeContext} {c d : ResponsesCodec} {deltas : Events}
    {r' : Option Json}

/-- What the codec keeps of the deltas of a response. -/
theorem keeps_of_runAll {ws : List WireEvent} (hdeltas : AllDeltas deltas)
    (h : Call.runAll encodeEventValues c deltas = .ok (d, ws)) :
    d.context = c.context ∧ d.responseId = c.responseId ∧
      d.output = (deltas.filterMap itemOf).foldl gather c.output := by
  induction deltas generalizing c ws with
  | nil =>
    cases h
    exact ⟨rfl, rfl, rfl⟩
  | cons e deltas ih =>
    obtain ⟨u, o, p, he, hrest, -⟩ := feed_cons_eq_ok.mp h
    obtain ⟨item, hitem⟩ := exists_itemOf (hdeltas e (by simp))
    obtain ⟨i, isNew, output, aggregateBytes, happends, -, rfl, -⟩ := handle_delta hitem
      (handle_of_step encodeEventValues_eq_ok he)
    obtain ⟨hcontext, hid, houtput⟩ := ih (fun e' he' => hdeltas e' (by simp [he'])) hrest
    refine ⟨hcontext, hid, ?_⟩
    rw [houtput, filterMap_cons_some hitem, foldl_cons, happends.eq_gather]

/-- The codec of `encode_response` makes the same calls as a stream. -/
theorem runAll_of_respond {events : Events} {r : Option Json}
    (h : events.foldlM respond (c, r) = .ok (d, r')) : ∃ ws,
    Call.runAll encodeEventValues c events = .ok (d, ws) := by
  induction events generalizing c r with
  | nil =>
    cases h
    exact ⟨[], rfl⟩
  | cons e events ih =>
    obtain ⟨⟨u, s⟩, hstep, hrest⟩ := do_eq_ok.mp ((foldlM_cons ..).symm.trans h)
    simp only [respond, do_ok, Prod.exists, Prod.mk.injEq] at hstep
    obtain ⟨u, ws, hcall, rfl, -⟩ := hstep
    obtain ⟨vs, hvs⟩ := ih hrest
    exact ⟨ws ++ vs, feed_cons_eq_ok.mpr ⟨u, ws, vs, hcall, hvs, rfl⟩⟩

/-- The response of a completed list is that of its last event. -/
theorem answer_of_respond {events : Events} {r : Option Json}
    (h : (events ++ [CanonicalEvent.completed]).foldlM respond (c, r) = .ok (d, r')) :
    ∃ ws, Call.runAll encodeEventValues c (events ++ [.completed]) = .ok (d, ws) ∧
      r' = ws.getLast?.bind fun e => e.2.tree.get? "response" := by
  obtain ⟨⟨u, s⟩, hbefore, hlast⟩ := foldlM_append_eq_ok.mp h
  obtain ⟨ws, hws⟩ := runAll_of_respond hbefore
  simp only [foldlM_cons, foldlM_nil, bind_pure, respond, do_ok, Prod.exists,
    Prod.mk.injEq] at hlast
  obtain ⟨d, vs, hcall, rfl, rfl⟩ := hlast
  refine ⟨ws ++ vs, feed_append.mpr ⟨u, ws, vs, hws, by rw [feed_singleton]; exact hcall, rfl⟩, ?_⟩
  obtain ⟨-, used, -, hwires⟩ := encodeCompleted_eq_ok.mp
    (handle_of_step encodeEventValues_eq_ok hcall)
  obtain ⟨rfl, -⟩ := wires_eq_ok.mp hwires
  rw [wireFrom_concat, ← append_assoc, getLast?_concat, answer, getLast?_concat]

/-- **What `encode_response` gives**: the response with the usage and all output items. -/
theorem encodeResponse_cases {id : String} {usage : Usage} {v : Value} (hdeltas : AllDeltas deltas)
    (h : encodeResponse context (whole id deltas usage) = .ok v) :
    ∃ c : ResponsesCodec, c.context = context ∧ c.responseId = some id ∧
      v = (c.responseValue c.ending.1 ((outputOf deltas).map value)
        (responsesUsageValue usage).tree).toValue := by
  simp only [encodeResponse, do_ok, Prod.exists, checks_ok] at h
  obtain ⟨d, r, hfold, -, response, rfl, rfl⟩ := h
  have hsplit : whole id deltas usage =
      (.created id :: (deltas ++ [.usage usage])) ++ [.completed] := by simp
  rw [hsplit] at hfold
  obtain ⟨wires, hwires, hanswer⟩ := answer_of_respond hfold
  rw [← hsplit] at hwires
  obtain ⟨c₁, c₂, c₃, ws, n, ⟨hcontext₁, hid₁, houtput₁⟩, hrun, ⟨hcontext₃, hid₃, houtput₃⟩, rfl⟩ :=
    runAll_cases hwires
  obtain ⟨hcontext₂, hid₂, houtput₂⟩ := keeps_of_runAll hdeltas hrun
  rw [wireFrom_concat, ← append_assoc, ← cons_append, getLast?_concat, bind_some,
    get?_response, some.injEq] at hanswer
  refine ⟨c₃, by rw [hcontext₃, hcontext₂, hcontext₁], by rw [hid₃, hid₂, hid₁], ?_⟩
  have houtput : c₃.output = outputOf deltas := by
    rw [houtput₃, houtput₂, houtput₁]
    rfl
  rw [hanswer, norm_toValue, houtput]

end Codec

/-! ## The decoder -/

section Decoder

variable {F : FloatReader} {limits : UpstreamLimits} {events r : Events} {index : Nat}
  {fs : Members} {w : Json} {output : List ResponsesOutput}

theorem decodeResponsesOutput_of {y : Json} {kind itemId : String}
    (hkind : stringAt y "type" = some kind) (hid : stringAt y "id" = some itemId) :
    decodeResponsesOutput limits events (y, index) = .ok r ↔
      validateIdentifier itemId limits.maxIdentifierBytes = .ok () ∧
        decodeOutputItem (.ofString kind) itemId y limits events = .ok r := by
  simp only [decodeResponsesOutput, requiredString, hkind, hid, do_ok, checks_ok, some.injEq,
    exists_eq_left', getD_some]

/-- An array with one entry. -/
theorem get?_singleton_of_readAs {x : Json} {k : String} (h : ReadAs F (.obj fs) w)
    (hkey : fs.lookup k = some (.arr [x])) (hnd : (fs.map Prod.fst).Nodup := by simp) :
    ∃ y, w.get? k = some (.arr [y]) ∧ ReadAs F x y := by
  obtain ⟨_, hget, harr⟩ := h.get? hkey hnd
  obtain ⟨ys, rfl, hys⟩ := harr.arr
  obtain ⟨y, hy, rfl⟩ := forall₂_singleton_left hys
  exact ⟨y, hget, hy⟩

/-- **One item, one delta.** -/
theorem decodeResponsesOutput_value {item : ResponsesOutput} {y : Json} (h : ReadAs F item.value y)
    (hroom : events.length < limits.maxEvents) :
    decodeResponsesOutput limits events (y, index) = .ok r ↔
      Acceptable limits (deltaOf item) ∧ r = events ++ [deltaOf item] := by
  cases item with
  | text itemId content =>
    rw [decodeResponsesOutput_of (stringAt_of_readAs h rfl) (stringAt_of_readAs h rfl)]
    show _ ∧ decodeOutputItem .message itemId y limits events = .ok r ↔ _
    obtain ⟨part, hcontent, hpart⟩ := get?_singleton_of_readAs (k := "content") h rfl
    have htext : stringAt part "text" = some content := stringAt_of_readAs hpart rfl
    have htype : stringAt part "type" = some "output_text" := stringAt_of_readAs hpart rfl
    simp only [decodeOutputItem, hcontent, bind_some, asArray, orInvalid, okOr, do_eq_ok,
      Except.ok.injEq, exists_eq_left', foldlM_cons, foldlM_nil, bind_pure, decodeMessagePart,
      htext, htype, true_or, if_true, pushText_eq_ok, hroom, true_and, Acceptable, deltaOf,
      textEvent]
    constructor
    · rintro ⟨hid, -, hsize, rfl⟩
      exact ⟨⟨hid, hsize⟩, rfl⟩
    · rintro ⟨⟨hid, hsize⟩, rfl⟩
      exact ⟨hid, hid, hsize, rfl⟩
  | reasoning itemId summary =>
    rw [decodeResponsesOutput_of (stringAt_of_readAs h rfl) (stringAt_of_readAs h rfl)]
    show _ ∧ decodeOutputItem .reasoning itemId y limits events = .ok r ↔ _
    obtain ⟨part, hsummary, hpart⟩ := get?_singleton_of_readAs (k := "summary") h rfl
    have htext : stringAt part "text" = some summary := stringAt_of_readAs hpart rfl
    simp only [decodeOutputItem, hsummary, bind_some, asArray, foldlM_cons, foldlM_nil, bind_pure,
      decodeSummaryPart, htext, pushText_eq_ok, hroom, true_and, Acceptable, deltaOf, textEvent]
    constructor
    · rintro ⟨hid, -, hsize, rfl⟩
      exact ⟨⟨hid, hsize⟩, rfl⟩
    · rintro ⟨⟨hid, hsize⟩, rfl⟩
      exact ⟨hid, hid, hsize, rfl⟩
  | tool itemId callId name arguments =>
    rw [decodeResponsesOutput_of (stringAt_of_readAs h rfl) (stringAt_of_readAs h rfl)]
    show _ ∧ decodeOutputItem .functionCall itemId y limits events = .ok r ↔ _
    simp only [decodeOutputItem, requiredString, do_eq_ok, checks_ok,
      stringAt_of_readAs (k := "call_id") h rfl, stringAt_of_readAs (k := "name") h rfl,
      stringAt_of_readAs (k := "arguments") h rfl, some.injEq, exists_eq_left',
      pushTool_eq_ok, hroom, true_and, Acceptable, deltaOf]
    constructor
    · rintro ⟨hid, -, hcall, hname, hsize, rfl⟩
      exact ⟨⟨hid, hcall, hname, hsize⟩, rfl⟩
    · rintro ⟨⟨hid, hcall, hname, hsize⟩, rfl⟩
      exact ⟨hid, hid, hcall, hname, hsize, rfl⟩

/-- All items of a body. -/
theorem decodeResponsesOutput_values {ys : List Json} {k : Nat}
    (h : Forall₂ (ReadAs F) (output.map value) ys)
    (hroom : events.length + output.length ≤ limits.maxEvents) :
    (ys.zipIdx k).foldlM (decodeResponsesOutput limits) events = .ok r ↔
      (∀ item ∈ output, Acceptable limits (deltaOf item)) ∧ r = events ++ output.map deltaOf := by
  induction output generalizing ys k events with
  | nil =>
    cases h
    show Except.ok events = .ok r ↔ _
    simp [eq_comm]
  | cons item output ih =>
    rw [map_cons, forall₂_cons_left_iff] at h
    obtain ⟨y, ys, hy, hys, rfl⟩ := h
    rw [length_cons] at hroom
    rw [zipIdx_cons, foldlM_cons, do_eq_ok, forall_mem_cons, map_cons, append_cons]
    constructor
    · rintro ⟨m, hm, hrest⟩
      obtain ⟨hitem, rfl⟩ := (decodeResponsesOutput_value hy (by omega)).mp hm
      obtain ⟨hitems, rfl⟩ := (ih hys (by rw [length_append, length_singleton]; omega)).mp hrest
      exact ⟨⟨hitem, hitems⟩, rfl⟩
    · rintro ⟨⟨hitem, hitems⟩, rfl⟩
      refine ⟨_, (decodeResponsesOutput_value hy (by omega)).mpr ⟨hitem, rfl⟩, ?_⟩
      exact (ih hys (by rw [length_append, length_singleton]; omega)).mpr ⟨hitems, rfl⟩

theorem readSlice_toVec {v : Value} (h : Carried F limits v w) :
    readSlice F v.tree.toVec = .ok w := by
  rw [readSlice, fromSlice_toVec, if_pos h.depth, readAs_tree.mp h.document, map_some,
    h.document.norm_eq]
  rfl

/-- A body with an error member, whatever it is, is refused. -/
theorem decodeResponsesComplete_error {v : Value} {error : Json} {requestId : String}
    (h : Carried F limits v w) (herror : w.get? "error" = some error) :
    decodeResponsesComplete F requestId v.tree.toVec limits =
      .error (.upstreamResponse 502 "responses upstream error") := by
  rw [decodeResponsesComplete, readSlice_toVec h]
  show (do rejectIf (w.get? "error").isSome _; _) = _
  rw [herror]
  rfl

/-- A body without one gives back its items. -/
theorem decodeResponsesComplete_items {v : Value} {requestId id : String} {usage : Usage}
    (h : Carried F limits v w) (hread : ReadAs F (.obj fs) w)
    (hnd : (fs.map Prod.fst).Nodup) (herror : w.get? "error" = none)
    (hid : fs.lookup "id" = some (.str id))
    (houtput : fs.lookup "output" = some (.arr (output.map value)))
    (husage : fs.lookup "usage" = some (responsesUsageValue usage).tree)
    (hitems : output.length ≤ limits.maxCollectionItems)
    (hcount : output.length + 3 ≤ limits.maxEvents) :
    decodeResponsesComplete F requestId v.tree.toVec limits = .ok r ↔
      (Acceptable limits (.created id) ∧ ∀ item ∈ output, Acceptable limits (deltaOf item)) ∧
        r = .created id :: (output.map deltaOf ++ [.usage (reported usage), .completed]) := by
  obtain ⟨_, hget, harr⟩ := hread.get? houtput hnd
  obtain ⟨ys, rfl, hys⟩ := harr.arr
  obtain ⟨u, hu, huread⟩ := hread.get? husage hnd
  have hlength : ys.length = output.length := by rw [← hys.length_eq, length_map]
  have hsize := Nat.le_trans (partOf_of_get? hu).length_toVec h.size
  have hfew : requireThat (!decide (ys.length > limits.maxCollectionItems)) = .ok () := by
    rw [requireThat_eq_ok, hlength]
    simpa using hitems
  simp only [decodeResponsesComplete, readSlice_toVec h, herror, isSome_none, rejectIf, okOr,
    stringAt_of_readAs hread hid hnd, getD_some, hget, bind_some, asArray, orInvalid, hfew, hu,
    openaiResponsesUsage_of_readAs huread hsize, do_ok, Except.ok.injEq, exists_eq_left',
    Bool.false_eq_true, if_false, true_and, Acceptable]
  constructor
  · rintro ⟨hcreated, events, hfold, hend⟩
    obtain ⟨hall, rfl⟩ :=
      (decodeResponsesOutput_values hys (by rw [length_singleton]; omega)).mp hfold
    exact ⟨⟨hcreated, hall⟩, by rw [endResponse_eq_ok hend]; simp⟩
  · rintro ⟨⟨hcreated, hall⟩, rfl⟩
    refine ⟨hcreated, _, (decodeResponsesOutput_values hys (by rw [length_singleton]; omega)).mpr
      ⟨hall, rfl⟩, ?_⟩
    simp only [endResponse, do_eq_ok, pushEvent_eq_ok, length_append, length_singleton, length_map]
    exact ⟨_, ⟨by omega, rfl⟩, by simp only [length_append, length_map, length_singleton]; omega, by
      simp⟩

end Decoder

/-! ## Bodies -/

section Bodies

open Outbound.ResponsesCodec

variable {F : FloatReader} {adapter : UpstreamAdapter} {context : ResponsesEncodeContext}
  {requestId id : String} {deltas : Events} {usage : Usage} {v : Value}

theorem decodeResponse_eq (hprotocol : adapter.protocol = .openAiResponses) {body : Bytes}
    (hsize : body.length ≤ adapter.limits.maxResponseBodyBytes) :
    adapter.decodeResponse F requestId body = decodeResponsesComplete F requestId body
    adapter.limits := by
  have hfits : requireThat (!decide (body.length > adapter.limits.maxResponseBodyBytes)) =
      .ok () := by
    simpa using hsize
  rw [UpstreamAdapter.decodeResponse, hfits, hprotocol]
  rfl

/-- **Responses bodies.** A response of the codec is never read back: the decoder takes its `error`
    member, which is `null`, for an error. Without that member it would be read back, item by item,
    exactly if the decoder takes the identifiers and sizes of the response. -/
theorem decodeResponse_encodeResponse (hprotocol : adapter.protocol = .openAiResponses)
    (hdeltas : AllDeltas deltas)
    (hencode : encodeResponse context
      (.created id :: (deltas ++ [.usage usage, .completed])) = .ok v)
    (hread : Readable F adapter.limits v)
    (hsize : v.tree.toVec.length ≤ adapter.limits.maxResponseBodyBytes)
    (hitems : (outputOf deltas).length ≤ adapter.limits.maxCollectionItems)
    (hcount : (outputOf deltas).length + 3 ≤ adapter.limits.maxEvents) :
    adapter.decodeResponse F requestId v.tree.toVec =
        .error (.upstreamResponse 502 "responses upstream error") ∧
      (adapter.decodeResponse F requestId (v.tree.without "error").toVec =
          .ok (.created id ::
            ((outputOf deltas).map deltaOf ++ [.usage (reported usage), .completed])) ↔
        Acceptable adapter.limits (.created id) ∧
          ∀ item ∈ outputOf deltas, Acceptable adapter.limits (deltaOf item)) := by
  obtain ⟨w, hw⟩ := hread
  obtain ⟨c, hcontext, hid, rfl⟩ := encodeResponse_cases hdeltas hencode
  obtain ⟨fs, hfs, hnd, hlookupId, hlookupOutput, hlookupUsage, hlookupError⟩ :=
    responseValue_members c c.ending.1 ((outputOf deltas).map value)
      (responsesUsageValue usage).tree
  rw [hfs] at hw hsize ⊢
  rw [hid, getD_some] at hlookupId
  have hdoc := readAs_toValue.mp hw.document
  obtain ⟨error, herror, -⟩ := hdoc.get? hlookupError hnd
  refine ⟨?_, ?_⟩
  · rw [decodeResponse_eq hprotocol hsize, decodeResponsesComplete_error hw herror]
  · -- the body without its error member is a value, and is read as what is left of the document
    let v' : Value := ((obj fs).without "error").toValue
    have hv' : (obj fs).toValue.tree.without "error" = v'.tree := (norm_without fs "error").symm
    have hdoc' := hdoc.without "error"
    have hw' : Carried F adapter.limits v' (w.without "error") :=
      ⟨by rw [← hv']; exact Nat.le_trans (depth_without_le _ _) hw.depth, readAs_toValue.mpr hdoc',
        Nat.le_trans (length_toVec_without_le _ _) hw.size⟩
    rw [hv', decodeResponse_eq hprotocol (by
      rw [← hv']
      exact Nat.le_trans (length_toVec_without_le _ _) hsize)]
    have hlookup : ∀ {key : String}, key ≠ "error" → (Read.withoutKey "error" fs).lookup key =
        fs.lookup key :=
      fun hne => Read.lookup_withoutKey fs hne
    rw [decodeResponsesComplete_items hw' hdoc' (Read.withoutKey_nodup hnd "error")
      (get?_without _ _) ((hlookup (by decide)).trans hlookupId)
      ((hlookup (by decide)).trans hlookupOutput) ((hlookup (by decide)).trans hlookupUsage)
      hitems hcount]
    simp

/-- A response with one call. -/
theorem exists_oneCallBody : ∃ v, encodeResponse bareContext
      [.created "r", .toolCallDelta "i" "c" "n" "x", .usage emptyUsage, .completed] = .ok v ∧
    v.tree.depth ≤ maxNesting := by
  have hbuilt : ((encodeResponse bareContext
      [.created "r", .toolCallDelta "i" "c" "n" "x", .usage emptyUsage, .completed]).toOption.map
        fun v => decide (v.tree.depth ≤ maxNesting)) = some true := by decide +kernel
  cases h : encodeResponse bareContext
      [.created "r", .toolCallDelta "i" "c" "n" "x", .usage emptyUsage, .completed] with
  | error e =>
    rw [h] at hbuilt
    cases hbuilt
  | ok v =>
    rw [h] at hbuilt
    exact ⟨v, rfl, of_decide_eq_true (some.inj hbuilt)⟩

theorem decodeResponse_encodeResponse_oneCall :
    ∃ v, encodeResponse bareContext
        [.created "r", .toolCallDelta "i" "c" "n" "x", .usage emptyUsage, .completed] = .ok v ∧
      let adapter : UpstreamAdapter :=
        { plainAdapter .openAiResponses with limits := roomFor [(none, v)] }
      adapter.decodeResponse exactFloats "q" v.tree.toVec =
          .error (.upstreamResponse 502 "responses upstream error") ∧
        adapter.decodeResponse exactFloats "q" (v.tree.without "error").toVec =
          .ok [.created "r", .toolCallDelta "i" "c" "n" "x", .usage (reported emptyUsage),
            .completed] := by
  obtain ⟨v, hv, hdepth⟩ := exists_oneCallBody
  refine ⟨v, hv, ?_⟩
  intro adapter
  have hlimits : WithinLimits exactFloats adapter.limits [(none, v)] :=
    withinLimits_roomFor (by simp) (by simpa using hdepth)
  obtain ⟨hfails, hrepaired⟩ := @decodeResponse_encodeResponse _ adapter _ "q" _
    [.toolCallDelta "i" "c" "n" "x"] _ _ rfl (.singleton rfl) hv
    (hlimits.readable (none, v) (by simp)) (length_toVec_le_roomFor (p := (none, v)) (by simp))
    (show 1 ≤ 256 by omega) (show 4 ≤ 4096 by omega)
  refine ⟨hfails, hrepaired.mpr ?_⟩
  show validateIdentifier "r" 512 = .ok () ∧ ∀ item ∈ [tool "i" "c" "n" "x"], _
  simp only [forall_mem_singleton, deltaOf, Acceptable]
  show _ ∧ validateIdentifier "i" 512 = .ok () ∧ validateIdentifier "c" 512 = .ok () ∧
    validateIdentifier "n" 512 = .ok () ∧ "x".utf8ByteSize ≤ 1024 * 1024
  decide

/-- The codec builds a response that the decoder refuses. -/
theorem decodeResponse_encodeResponse_refused :
    ∃ v, encodeResponse bareContext
        [.created "r", .toolCallDelta "i" "c" "n" "x", .usage emptyUsage, .completed] = .ok v ∧
      let adapter : UpstreamAdapter :=
        { plainAdapter .openAiResponses with limits := roomFor [(none, v)] }
      v.tree.toVec.length ≤ adapter.limits.maxResponseBodyBytes ∧
        adapter.decodeResponse exactFloats "q" v.tree.toVec =
          .error (.upstreamResponse 502 "responses upstream error") := by
  obtain ⟨v, hv, hdepth⟩ := exists_oneCallBody
  refine ⟨v, hv, ?_⟩
  intro adapter
  have hlimits : WithinLimits exactFloats adapter.limits [(none, v)] :=
    withinLimits_roomFor (by simp) (by simpa using hdepth)
  obtain ⟨w, hw⟩ := hlimits.readable (none, v) (by simp)
  have hsize : v.tree.toVec.length ≤ adapter.limits.maxResponseBodyBytes :=
    length_toVec_le_roomFor (p := (none, v)) (by simp)
  refine ⟨hsize, ?_⟩
  obtain ⟨c, -, -, rfl⟩ := @encodeResponse_cases _ [.toolCallDelta "i" "c" "n" "x"] _ _ _
    (.singleton rfl) hv
  obtain ⟨fs, hfs, hnd, -, -, -, hlookupError⟩ :=
    responseValue_members c c.ending.1
      ((outputOf [.toolCallDelta "i" "c" "n" "x"]).map value) (responsesUsageValue emptyUsage).tree
  have hdoc := readAs_toValue.mp hw.document
  rw [hfs] at hdoc
  obtain ⟨error, herror, -⟩ := hdoc.get? hlookupError hnd
  rw [decodeResponse_eq rfl hsize]
  exact decodeResponsesComplete_error hw herror

end Bodies

end Wokcore.Protocols.Loopback
