import Wokcore.Protocols.Loopback.Transport
import Wokcore.Protocols.Outbound.ResponsesItems

/-!
# The Responses codec read by the Responses decoder

An event of the codec is up to three frames: a new item is announced, and an announced tool call is
the only place where its name and its call are sent, so the decoder has to remember them (`Knows`).
Every delta then comes back as it was. The events that end the items are passed over, and the usage
is read from the response that comes last.
-/

set_option autoImplicit false

namespace Wokcore.Protocols.Loopback

open Lib Protocols.Stream Upstream Outbound List ResponsesOutput Upstream.ResponsesStream
  Outcome Result
variable {item : ResponsesOutput} {output : List ResponsesOutput}
    {tools : EntryMap (String × String)}

/-! ## What the decoder remembers -/

/-- Every call of the output is remembered under its item. -/
def Knows (output : List ResponsesOutput) (tools : EntryMap (String × String)) : Prop :=
  ∀ itemId callId name arguments, .tool itemId callId name arguments ∈ output →
    tools.get? itemId = some (callId, name)

/-- What the announcement of an item adds. -/
def learn (item : ResponsesOutput) (tools : EntryMap (String × String)) :
    EntryMap (String × String) :=
  match item with
  | .tool itemId callId name _ => tools.insert itemId (callId, name)
  | _ => tools

theorem Knows.known {i : Nat} {old extended : ResponsesOutput} (h : Knows output tools)
    (hold : output[i]? = some old) (hextend : old.extend item = some extended) :
    Knows (output.set i extended) tools := by
  intro itemId callId name arguments hmem
  rcases mem_or_eq_of_mem_set hmem with hmem | heq
  · exact h _ _ _ _ hmem
  · have hin : old ∈ output := mem_of_getElem? hold
    -- only a call is extended to a call, and it keeps its identity
    cases old with
    | text | reasoning => cases item <;> simp [extend, ← heq] at hextend
    | tool oldId oldCall oldName oldArguments =>
      cases item with
      | tool newId newCall newName delta =>
        simp only [extend, Option.ite_none_right_eq_some, Option.some.injEq, ← heq,
          tool.injEq] at hextend
        obtain ⟨-, rfl, rfl, rfl, -⟩ := hextend
        exact h _ _ _ _ hin
      | _ => cases hextend

theorem Knows.new (h : Knows output tools) (hfresh : ∀ o ∈ output, o.itemId ≠ item.itemId) :
    Knows (output ++ [item]) (learn item tools) := by
  intro itemId callId name arguments hmem
  rcases mem_append.mp hmem with hbefore | hlast
  · cases item with
    | tool newId newCall newName delta =>
      have hne : itemId ≠ newId := hfresh _ hbefore
      rw [learn, EntryMap.get?_insert, if_neg hne]
      exact h _ _ _ _ hbefore
    | _ => exact h _ _ _ _ hbefore
  · cases mem_singleton.mp hlast
    rw [learn, EntryMap.get?_insert, if_pos rfl]

/-! ## Frames in the decoder -/

namespace ResponsesStream

open Outbound.ResponsesCodec

variable {F : FloatReader} {limits : UpstreamLimits} {q : Upstream.ResponsesStream × Events}
  {w : Json} {number i : Nat} {r : Upstream.ResponsesStream × Events} {ev : Unnumbered}
  {ds : List Json}

theorem readAs_wireFields (h : Carried F limits (wireEvent number ev).2 w) :
    ReadAs F (.obj (wireFields number ev)) w := readAs_toValue.mp h.document

theorem decodeEvent_wire (h : Carried F limits (wireEvent number ev).2 w)
    (hnd : ((wireFields number ev).map Prod.fst).Nodup := by simp [wireFields]) :
    decodeEvent limits q w = q.1.decodeKind limits q.2 w (.ofString ev.1) := by
  unfold decodeEvent requiredString
  rw [stringAt_of_readAs (readAs_wireFields h) rfl hnd]
  rfl

/-- An event of a kind the decoder does not know is passed over. -/
theorem decodeEvent_other (h : Carried F limits (wireEvent number ev).2 w)
    (hother : ResponsesKind.ofString ev.1 = .other)
    (hnd : ((wireFields number ev).map Prod.fst).Nodup := by simp [wireFields]) :
    decodeEvent limits q w = .ok q := by
  rw [decodeEvent_wire h hnd, hother]
  rfl

/-- An added item that is no call is passed over. -/
theorem decodeEvent_added {fields item : Members} {kind : String}
    (h : Carried F limits (wireEvent number ("response.output_item.added", fields)).2 w)
    (hitem : (wireFields number ("response.output_item.added", fields)).lookup "item" =
    some (.obj item)) (hkind : item.lookup "type" = some (.str kind))
    (hother : kind ≠ "function_call") (hkeys : (item.map Prod.fst).Nodup := by simp)
    (hnd : ((wireFields number ("response.output_item.added", fields)).map
    Prod.fst).Nodup := by simp [wireFields]) :
    decodeEvent limits q w = .ok q := by
  obtain ⟨it, hit, hread⟩ := (readAs_wireFields h).get? hitem hnd
  rw [decodeEvent_wire h hnd]
  show (do let s ← q.1.addItem (w.get? "item"); return (s, q.2)) = _
  rw [hit, ResponsesStream.addItem, stringAt_of_readAs hread hkind hkeys,
    if_neg (by simpa using hother)]
  rfl

theorem decodeEvent_addedCall {itemId callId name : String}
    (h : Carried F limits
        (wireEvent number ("response.output_item.added",
          [("output_index", .ofNat i),
          ("item", .obj [("id", .str itemId), ("type", .str "function_call"),
          ("call_id", .str callId), ("name", .str name), ("arguments", .str ""),
          ("status", .str "in_progress")])])).2 w) :
    decodeEvent limits q w = .ok ({ q.1 with tools := q.1.tools.insert itemId (callId, name) },
      q.2) := by
  obtain ⟨it, hit, hread⟩ := (readAs_wireFields h).get? (k := "item") rfl (by simp [wireFields])
  rw [decodeEvent_wire h]
  show (do let s ← q.1.addItem (w.get? "item"); return (s, q.2)) = _
  rw [hit, ResponsesStream.addItem, stringAt_of_readAs hread rfl, if_pos rfl, requiredString,
    requiredString, requiredString, stringAt_of_readAs hread rfl, stringAt_of_readAs hread rfl,
    stringAt_of_readAs hread rfl]
  rfl

/-- **Announcements.** The decoder remembers the item, if it is a call, and gives out nothing. -/
theorem decode_announcement (h : Forall₂ (fun e => Carried F limits e.2)
    (wireFrom number (announcement i item)) ds) :
    ds.foldlM (decodeEvent limits) q = .ok ({ q.1 with tools := learn item q.1.tools }, q.2) := by
  cases item with
  | text itemId content | reasoning itemId content =>
    simp only [announcement, wireFrom, forall₂_cons_left_iff, forall₂_nil_left_iff] at h
    obtain ⟨d₁, _, h₁, ⟨d₂, _, h₂, rfl, rfl⟩, rfl⟩ := h
    rw [foldlM_cons_of_ok (decodeEvent_added h₁ rfl rfl (by decide)), foldlM_cons_of_ok
      (decodeEvent_other h₂ rfl)]
    rfl
  | tool itemId callId name arguments =>
    simp only [announcement, wireFrom, forall₂_cons_left_iff, forall₂_nil_left_iff] at h
    obtain ⟨d₁, _, h₁, rfl, rfl⟩ := h
    rw [foldlM_cons_of_ok (decodeEvent_addedCall h₁)]
    rfl

/-- **Deltas.** A delta comes back as it was if it passes the checks of the decoder. -/
theorem decode_delta {e : CanonicalEvent} (hitem : itemOf e = some item)
    (h : Carried F limits (wireEvent number (deltaEvent i item)).2 w)
    (hcreated : q.1.created = true) (hroom : q.2.length < limits.maxEvents)
    (hknown : ∀ itemId callId name delta, item = .tool itemId callId name delta →
      q.1.tools.get? itemId = some (callId, name)) :
    decodeEvent limits q w = .ok r ↔ Acceptable limits e ∧ r = (q.1, q.2 ++ [e]) := by
  have hread := readAs_wireFields h
  have hnd : ((wireFields number (deltaEvent i item)).map Prod.fst).Nodup := by
    cases item <;> simp [wireFields, deltaEvent]
  rw [decodeEvent_wire h hnd]
  cases e with
  | outputTextDelta itemId delta | reasoningDelta itemId delta =>
    cases hitem
    first
      | show q.1.decodeKind limits q.2 w .textDelta = .ok r ↔ _
      | show q.1.decodeKind limits q.2 w .reasoningDelta = .ok r ↔ _
    simp only [decodeKind, do_ok, checks_ok, requiredString,
      stringAt_of_readAs (k := "item_id") hread rfl hnd, stringAt_of_readAs
      (k := "delta") hread rfl hnd, pushText_eq_ok, Option.some.injEq, exists_eq_left', hcreated,
      hroom, true_and, Acceptable, and_assoc]
    constructor
    · rintro ⟨_, hid, hsize, rfl, rfl⟩
      exact ⟨hid, hsize, rfl⟩
    · rintro ⟨hid, hsize, rfl⟩
      exact ⟨_, hid, hsize, rfl, rfl⟩
  | toolCallDelta itemId callId name delta =>
    cases hitem
    show q.1.decodeKind limits q.2 w .argumentsDelta = .ok r ↔ _
    simp only [decodeKind, do_ok, checks_ok, requiredString,
      stringAt_of_readAs (k := "item_id") hread rfl hnd, stringAt_of_readAs
      (k := "delta") hread rfl hnd, pushTool_eq_ok, Option.some.injEq, exists_eq_left', hcreated,
      hroom, true_and, Acceptable, and_assoc, hknown itemId callId name delta rfl, Prod.exists,
      Prod.mk.injEq]
    constructor
    · rintro ⟨_, _, rfl, rfl, _, hid, hcall, hname, hsize, rfl, rfl⟩
      exact ⟨hid, hcall, hname, hsize, rfl⟩
    · rintro ⟨hid, hcall, hname, hsize, rfl⟩
      exact ⟨_, _, rfl, rfl, _, hid, hcall, hname, hsize, rfl, rfl⟩
  | _ => cases hitem

/-! ## The first event and the last ones -/

theorem decode_created {c : ResponsesCodec} {id : String} (h : Carried F limits (wireEvent number
      ("response.created", [("response", c.responseValue "in_progress" [] .null)])).2 w)
    (hid : c.responseId = some id) (hfresh : q.1.created = false) :
    decodeEvent limits q w = .ok r ↔
      Acceptable limits (.created id) ∧
      r = ({ q.1 with created := true }, q.2 ++ [.created id]) := by
  obtain ⟨fields, hfields, hkeys, hlookup, -⟩ := responseValue_members c "in_progress" [] .null
  obtain ⟨response, hresponse, hread⟩ := (readAs_wireFields h).get? (k := "response") rfl
    (by simp [wireFields])
  rw [hfields] at hread
  have hgot : stringAt response "id" = some id := by
    rw [stringAt_of_readAs hread hlookup hkeys, hid]
    rfl
  rw [decodeEvent_wire h]
  show q.1.decodeKind limits q.2 w .created = .ok r ↔ _
  simp only [decodeKind, do_ok, checks_ok, hresponse, Option.bind_some, hgot,
    Option.getD_some, hfresh, Bool.not_false, true_and, Acceptable]
  exact and_congr_right fun _ => eq_comm

/-- The events that end the items are all passed over. -/
theorem decode_done {output : List (ResponsesOutput × Nat)}
    (h : Forall₂ (fun e => Carried F limits e.2) (wireFrom number (output.flatMap doneEvents)) ds) :
    ds.foldlM (decodeEvent limits) q = .ok q := by
  have hsilent : ∀ ev ∈ output.flatMap doneEvents, ∀ n, ((wireFields n ev).map Prod.fst).Nodup ∧
      ResponsesKind.ofString ev.1 = .other := by
    intro ev hev n
    obtain ⟨⟨item, i⟩, -, hev⟩ := mem_flatMap.mp hev
    cases item with
    | text itemId content | reasoning itemId content =>
      rcases (by simpa [doneEvents] using hev) with rfl | rfl | rfl <;> exact ⟨by
        simp [wireFields], rfl⟩
    | tool itemId callId name arguments =>
      rcases (by simpa [doneEvents] using hev) with rfl | rfl <;> exact ⟨by simp [wireFields], rfl⟩
  generalize output.flatMap doneEvents = evs at h hsilent
  induction evs generalizing number ds with
  | nil =>
    cases h
    rfl
  | cons ev evs ih =>
    rw [wireFrom, forall₂_cons_left_iff] at h
    obtain ⟨d, ds, hd, hds, rfl⟩ := h
    obtain ⟨hnd, hother⟩ := hsilent ev (by simp) number
    rw [foldlM_cons_of_ok (decodeEvent_other hd hother hnd)]
    exact ih hds fun ev' hev' => hsilent ev' (by simp [hev'])

end ResponsesStream

/-! ### Usage -/

/-- A usage as the decoder reads it back: what is absent is zero, and the extensions are gone. -/
def reported (usage : Usage) : Usage :=
  ⟨usage.inputTokens, usage.outputTokens, some (usage.cachedInputTokens.getD 0),
    some (usage.reasoningTokens.getD 0), .empty⟩

section Usage

variable {F : FloatReader} {limits : UpstreamLimits} {w : Json}

theorem detailU64_of_readAs {fields : Members} {d k : String} {n : UInt64}
    (h : ReadAs F (.obj fields) w) (hdetails : fields.lookup d = some (.obj [(k, .ofWord n)]))
    (hnd : (fields.map Prod.fst).Nodup) :
    detailU64 w d k = .ok (some n) := by
  obtain ⟨details, hget, hread⟩ := h.get? hdetails hnd
  rw [detailU64, hget]
  exact optionalU64_of_readAs hread (by rw [lookup_cons_ite, if_pos rfl])

theorem validateValueSize_of_readAs {j : Json} {maximum : Nat} (h : ReadAs F j w)
    (hsize : w.toVec.length ≤ maximum) : validateValueSize w.toValue maximum = .ok () := by
  unfold validateValueSize
  rw [requireThat_eq_ok, Json.toValue_tree, h.norm_eq]
  simpa using hsize

theorem openaiResponsesUsage_of_readAs {usage : Usage}
    (h : ReadAs F (responsesUsageValue usage).tree w)
    (hsize : w.toVec.length ≤ limits.maxResponseBodyBytes) :
    openaiResponsesUsage (some w) limits = .ok (reported usage) := by
  have hfields : ((responsesUsageFields usage).map Prod.fst).Nodup := by simp [responsesUsageFields]
  have hnd := orInsertAll_nodup hfields usage.extensions
  have hread := readAs_toValue.mp h
  have hdetails : ∀ {d k : String} {n : UInt64},
      (responsesUsageFields usage).lookup d = some (.obj [(k, .ofWord n)]) →
      detailU64 w d k = .ok (some n) :=
    fun hlookup => detailU64_of_readAs hread (lookup_orInsertAll hlookup _) hnd
  have hcount : ∀ {k : String} {n : UInt64}, (responsesUsageFields usage).lookup k =
      some (.ofWord n) → Upstream.optionalU64 w k = .ok (some n) :=
    fun hlookup => optionalU64_of_readAs hread (lookup_orInsertAll hlookup _) hnd
  unfold openaiResponsesUsage
  dsimp only
  rw [validateValueSize_of_readAs h hsize, hcount (k := "input_tokens") rfl,
    hcount (k := "output_tokens") rfl, hdetails (d := "input_tokens_details")
    (k := "cached_tokens") rfl, hdetails (d := "output_tokens_details")
    (k := "reasoning_tokens") rfl]
  rfl

end Usage

namespace ResponsesStream

open Outbound.ResponsesCodec

variable {F : FloatReader} {limits : UpstreamLimits} {q : Upstream.ResponsesStream × Events}
  {w : Json} {number : Nat} {c : ResponsesCodec} {output ds : List Json} {usage : Usage}

theorem decode_completed (h : Carried F limits (wireEvent number ("response.completed",
      [("response", c.responseValue "completed" output (responsesUsageValue usage).tree)])).2 w)
    (hcreated : q.1.created = true) :
    decodeEvent limits q w =
      .ok ({ q.1 with completed := true }, q.2 ++ [.usage (reported usage), .completed]) := by
  obtain ⟨fields, hfields, hkeys, -, -, hlookup, -⟩ :=
    responseValue_members c "completed" output (responsesUsageValue usage).tree
  obtain ⟨response, hresponse, hread⟩ := (readAs_wireFields h).get? (k := "response") rfl
    (by simp [wireFields])
  rw [hfields] at hread
  obtain ⟨read, husage, husageRead⟩ := hread.get? hlookup hkeys
  have hsize := ((partOf_of_get? husage).trans (partOf_of_get? hresponse)).length_toVec
  have hallowed : requireThat q.1.created = .ok () := requireThat_eq_ok.mpr hcreated
  rw [decodeEvent_wire h]
  show q.1.decodeKind limits q.2 w .completed = _
  rw [decodeKind, hallowed, hresponse, Option.bind_some, husage,
    openaiResponsesUsage_of_readAs husageRead (Nat.le_trans hsize h.size)]
  rfl

/-- All frames of the end of a response. -/
theorem decode_ending (hcontext : c.context.response.incompleteDetails = none)
    (h : Forall₂ (fun e => Carried F limits e.2)
      (wireFrom number (c.output.zipIdx.flatMap doneEvents ++ [(c.ending.2,
        [("response", c.responseValue c.ending.1 output (responsesUsageValue usage).tree)])])) ds)
    (hcreated : q.1.created = true) :
    ds.foldlM (decodeEvent limits) q =
      .ok ({ q.1 with completed := true }, q.2 ++ [.usage (reported usage), .completed]) := by
  have hending : c.ending = ("completed", "response.completed") := by
    unfold ending
    rw [hcontext]
    rfl
  rw [hending, wireFrom_append] at h
  obtain ⟨es, fs, rfl, hes, hfs⟩ := forall₂_append_left h
  simp only [wireFrom, forall₂_cons_left_iff, forall₂_nil_left_iff] at hfs
  obtain ⟨d, _, hd, rfl, rfl⟩ := hfs
  simp only [foldlM_append, decode_done hes, foldlM_cons, foldlM_nil, bind_pure]
  exact decode_completed hd hcreated

/-- All frames of a delta. -/
theorem decode_deltaEvents {e : CanonicalEvent} {output output' : List ResponsesOutput} {i : Nat}
    {isNew : Bool} (hitem : itemOf e = some item) (happends : Appends output item output' i isNew)
    (hcreated : q.1.created = true) (hknows : Knows output q.1.tools)
    (hroom : q.2.length < limits.maxEvents) (hsent : Forall₂ (fun e => Carried F limits e.2)
    (wireFrom number (deltaEvents item i isNew)) ds) :
    ∃ t, t.created = true ∧ Knows output' t.tools ∧
      ∀ r, ds.foldlM (decodeEvent limits) q = .ok r ↔ Acceptable limits e ∧
      r = (t, q.2 ++ [e]) := by
  have hmem : ∀ {itemId callId name delta}, item = .tool itemId callId name delta →
      ∃ arguments, .tool itemId callId name arguments ∈ output' := fun h => happends.mem_of_tool h
  cases happends with
  | @known i old extended hold hid hfirst hextend =>
    simp only [deltaEvents, Bool.false_eq_true, if_false, nil_append, wireFrom,
      forall₂_cons_left_iff, forall₂_nil_left_iff] at hsent
    obtain ⟨d, _, hd, rfl, rfl⟩ := hsent
    have hnow := hknows.known hold hextend
    refine ⟨q.1, hcreated, hnow, fun r => ?_⟩
    simp only [foldlM_cons, foldlM_nil, bind_pure]
    refine decode_delta hitem hd hcreated hroom fun itemId callId name delta h => ?_
    obtain ⟨arguments, hin⟩ := hmem h
    exact hnow _ _ _ _ hin
  | new hfresh hcall =>
    simp only [deltaEvents, if_true, wireFrom_append] at hsent
    obtain ⟨es, fs, rfl, hes, hfs⟩ := forall₂_append_left hsent
    simp only [wireFrom, forall₂_cons_left_iff, forall₂_nil_left_iff] at hfs
    obtain ⟨d, _, hd, rfl, rfl⟩ := hfs
    have hnow := hknows.new hfresh
    refine ⟨{ q.1 with tools := learn item q.1.tools }, hcreated, hnow, fun r => ?_⟩
    simp only [foldlM_append, decode_announcement hes, foldlM_cons, foldlM_nil, bind_pure]
    refine decode_delta (q := ({ q.1 with tools := learn item q.1.tools }, q.2)) hitem hd
      hcreated hroom fun itemId callId name delta h => ?_
    obtain ⟨arguments, hin⟩ := hmem h
    exact hnow _ _ _ _ hin

end ResponsesStream

/-! ## Whole streams -/

section Streams

open Outbound.ResponsesCodec

variable {F : FloatReader} {limits : UpstreamLimits} {context : ResponsesEncodeContext}
  {c : ResponsesCodec} {id : String} {deltas : Events} {usage : Usage} {wires : List WireEvent}

/-- Between two deltas the decoder has seen the response created and knows every call. -/
def Following (context : ResponsesEncodeContext) (c : ResponsesCodec)
    (q : Upstream.ResponsesStream × Events) : Prop :=
  c.context = context ∧ q.1.created = true ∧ Knows c.output q.1.tools

/-- **One delta.** -/
theorem echo_responses : Echo (Call.stepOfCall encodeEventValues) (fun e => Carried F limits e.2)
    (decodeEvent limits) (Following context) (fun _ => True) (fun e => e.isDelta = true)
    (Acceptable limits) (fun _ e e' => e = e') limits.maxEvents where
  step := by
    rintro c d e ws ds q ⟨hcontext, hcreated, hknows⟩ - hroom hdelta hstep hsent
    obtain ⟨item, hitem⟩ := exists_itemOf hdelta
    obtain ⟨i, isNew, output, aggregateBytes, happends, -, rfl, rfl⟩ := handle_delta hitem
      (handle_of_step encodeEventValues_eq_ok hstep)
    obtain ⟨t, ht, hknown, hread⟩ := ResponsesStream.decode_deltaEvents hitem happends hcreated
      hknows hroom hsent
    exact ⟨t, e, ⟨hcontext, ht, hknown⟩, rfl, hread⟩
  keep := fun h _ => h
  back := fun h _ => h

/-- **What a whole response sends**: the response, the deltas, the ends of all items and the
    response again. -/
theorem runAll_cases (h : Call.runAll encodeEventValues (.new context)
      (whole id deltas usage) = .ok (c, wires)) :
    ∃ (c₁ c₂ c₃ : ResponsesCodec) (ws : List WireEvent) (n : Nat),
      (c₁.context = context ∧ c₁.responseId = some id ∧ c₁.output = []) ∧
      Call.runAll encodeEventValues c₁ deltas = .ok (c₂, ws) ∧
      (c₃.context = c₂.context ∧ c₃.responseId = c₂.responseId ∧ c₃.output = c₂.output) ∧
      wires = wireEvent 1
        ("response.created", [("response", c₁.responseValue "in_progress" [] .null)]) ::
          (ws ++ wireFrom n
            (c₃.output.zipIdx.flatMap doneEvents ++
              [(c₃.ending.2,
                [("response", c₃.responseValue c₃.ending.1 (c₃.output.map value)
                  (responsesUsageValue usage).tree)])])) := by
  obtain ⟨d₁, c₂, d₃, o₁, ws, o₃, o₄, hcreated, hdeltas, husage, hlast, rfl⟩ := steps_of_runAll h
  obtain ⟨-, -, hwires⟩ := encodeCreated_eq_ok.mp (handle_of_step encodeEventValues_eq_ok hcreated)
  obtain ⟨rfl, rfl⟩ := wires_eq_ok.mp hwires
  obtain ⟨-, -, value, hvalue, rfl, rfl⟩ := encodeUsage_eq_ok.mp
    (handle_of_step encodeEventValues_eq_ok husage)
  obtain ⟨-, used, hused, hwires⟩ := encodeCompleted_eq_ok.mp
    (handle_of_step encodeEventValues_eq_ok hlast)
  obtain ⟨rfl, rfl⟩ := wires_eq_ok.mp hwires
  -- the usage that is sent is the one that was validated
  have hsame : used = responsesUsageValue usage := by
    cases hused
    simp only [ResponsesLimits.validateUsage, do_ok] at hvalue
    exact hvalue.2.2.symm
  subst hsame
  exact ⟨_, c₂, _, ws, _, ⟨rfl, rfl, rfl⟩, hdeltas, ⟨rfl, rfl, rfl⟩, rfl⟩

/-- What was sent of a response that is complete is read back as the same events, exactly if the
    decoder takes all of them. -/
theorem run_sent_iff {requestId : String} (hdeltas : AllDeltas deltas)
    (hcontext : context.response.incompleteDetails = none)
    (hwires : Call.runAll encodeEventValues (.new context) (whole id deltas usage) =
      .ok (c, wires))
    (hlimits : WithinLimits F limits (named wires))
    (hcount : deltas.length + 3 ≤ limits.maxEvents) :
    UpstreamStreamDecoder.run F (.responses (.new requestId limits))
        [sseBytes wires] =
        .ok (.created id :: (deltas ++ [.usage (reported usage), .completed])) ↔
      ∀ e ∈ .created id :: deltas, Acceptable limits e := by
  obtain ⟨c₁, c₂, c₃, ws, n, ⟨hcontext₁, hid, houtput⟩, hrun, ⟨hcontext₃, -⟩, rfl⟩ :=
    runAll_cases hwires
  obtain ⟨ds, hds⟩ := exists_carried hlimits.readable
  refine (run_counted .responses (fun _ _ => rfl) (fun _ => rfl)
    (fun _ _ => rfl) hlimits hds rfl).trans ?_
  obtain ⟨d, ds, hd, hrest, rfl⟩ := forall₂_cons_left_iff.mp (forall₂_map_left_iff.mp hds)
  obtain ⟨es, fs, rfl, hes, hfs⟩ := forall₂_append_left hrest
  -- the deltas come back one by one
  have hstart : Following context c₁ ({ new requestId with created := true }, [.created id]) :=
    ⟨hcontext₁, rfl, fun _ _ _ _ h => by rw [houtput] at h; cases h⟩
  obtain ⟨t, bs, ⟨hcontext₂, ht, -⟩, hsame, hread⟩ := echo_responses.run hstart trivial
    (by rw [length_singleton]; omega) hdeltas hrun hes
  obtain rfl : deltas = bs := forall₂_eq_eq_eq ▸ hsame
  have hfirst : ∀ r, [d].foldlM (decodeEvent limits) (.new requestId, []) = .ok r ↔ _ := fun r => by
    rw [foldlM_singleton, ResponsesStream.decode_created hd hid rfl]
  have hlast := ResponsesStream.decode_ending (q := (t, [.created id] ++ deltas))
    (by rw [hcontext₃, hcontext₂, hcontext]) hfs ht
  have hboth : ∀ r, (d :: es).foldlM (decodeEvent limits) _ = .ok r ↔ _ :=
    foldlM_append_iff hfirst hread
  simp only [← cons_append, foldlM_append_eq_ok, hboth, forall_mem_cons]
  constructor
  · rintro ⟨t', ⟨q, ⟨hacceptable, -⟩, -⟩, -⟩
    exact hacceptable
  · intro hacceptable
    refine ⟨{ t with completed := true }, ⟨_, ⟨hacceptable, rfl⟩, by rw [hlast, append_assoc]; rfl⟩,
      rfl, ?_⟩
    refine Nat.le_trans (Nat.min_le_left _ _) ?_
    simp only [length_cons, length_append, length_nil]
    omega

/-- **Responses and back.** What the codec sends of a response without `incomplete_details` is read
    back by the stream decoder as the same events, except that absent counts come back as zero and
    extensions of the usage are gone, exactly if the decoder takes the identifiers and the sizes of
    all events. -/
theorem run_encodeEvent_iff {adapter : UpstreamAdapter} {requestId id : String}
    {deltas : List CanonicalEvent} {usage : Usage} {c : ResponsesCodec} {bytes : Bytes}
    (hprotocol : adapter.protocol = .openAiResponses) (hdeltas : AllDeltas deltas)
    (hcontext : context.response.incompleteDetails = none)
    (hsent : Call.runAll encodeEvent (.new context)
      (.created id :: (deltas ++ [.usage usage, .completed])) = .ok (c, bytes))
    (hlimits : WithinLimits F adapter.limits
      (named (Call.returned encodeEventValues (.new context)
        (.created id :: (deltas ++ [.usage usage, .completed])))))
    (hcount : deltas.length + 3 ≤ adapter.limits.maxEvents) :
    (adapter.streamDecoder requestId).run F [bytes] =
        .ok (.created id :: (deltas ++ [.usage (reported usage), .completed])) ↔
      ∀ e ∈ .created id :: deltas, Acceptable adapter.limits e := by
  obtain ⟨wires, hwires, rfl⟩ := (Call.runAll_eq_ok_iff_of_flatMap encodeEvent_eq_ok).mp hsent
  have hdecoder : adapter.streamDecoder requestId = .responses (.new requestId adapter.limits) := by
    rw [UpstreamAdapter.streamDecoder, hprotocol]
  rw [Call.returned_of_runAll hwires] at hlimits
  rw [hdecoder]
  exact run_sent_iff hdeltas hcontext hwires hlimits hcount

/-- A response with one call. -/
theorem run_encodeEvent_iff_oneCall :
    let events := [.created "r", .toolCallDelta "i" "c" "n" "x", .usage emptyUsage, .completed]
    let sent := named (Call.returned encodeEventValues (.new bareContext) events)
    let adapter : UpstreamAdapter := { plainAdapter .openAiResponses with limits := roomFor sent }
    ∃ c bytes, Call.runAll encodeEvent (.new bareContext) events = .ok (c, bytes) ∧
      (adapter.streamDecoder "q").run exactFloats [bytes] =
        .ok [.created "r", .toolCallDelta "i" "c" "n" "x", .usage (reported emptyUsage),
          .completed] := by
  intro events sent adapter
  have hdepth : ∀ p ∈ sent, p.2.tree.depth ≤ maxNesting := by decide +kernel
  obtain ⟨r, hrun⟩ := exists_of_isOk (x := Call.runAll encodeEvent (.new bareContext) events)
    (by decide +kernel)
  refine ⟨r.1, r.2, hrun, ?_⟩
  refine (@run_encodeEvent_iff _ _ adapter _ _ [.toolCallDelta "i" "c" "n" "x"] emptyUsage _ _ rfl
    (.singleton rfl) rfl hrun (withinLimits_roomFor (by decide +kernel) hdepth)
    (show 4 ≤ 4096 by omega)).mpr ?_
  simp only [forall_mem_cons, not_mem_nil, false_implies, implies_true, and_true, Acceptable]
  decide +kernel

/-- A response named by a single dot is sent and not read back: the decoder takes identifiers that
    are path segments for dangerous, the codec does not. -/
theorem run_encodeEvent_dot :
    let events := [.created ".", .usage emptyUsage, .completed]
    let sent := named (Call.returned encodeEventValues (.new bareContext) events)
    let adapter : UpstreamAdapter := { plainAdapter .openAiResponses with limits := roomFor sent }
    Core.hasControl "." = false ∧ WithinLimits exactFloats adapter.limits sent ∧
      ∃ c bytes, Call.runAll encodeEvent (.new bareContext) events = .ok (c, bytes) ∧
        (adapter.streamDecoder "q").run exactFloats [bytes] ≠
          .ok [.created ".", .usage (reported emptyUsage), .completed] := by
  intro events sent adapter
  have hdepth : ∀ p ∈ sent, p.2.tree.depth ≤ maxNesting := by decide +kernel
  have hlimits := withinLimits_roomFor (by decide +kernel) hdepth
  refine ⟨rfl, hlimits, ?_⟩
  obtain ⟨r, hrun⟩ := exists_of_isOk (x := Call.runAll encodeEvent (.new bareContext) events)
    (by decide +kernel)
  refine ⟨r.1, r.2, hrun, fun hread => ?_⟩
  obtain ⟨wires, hwires, hbytes⟩ := (Call.runAll_eq_ok_iff_of_flatMap encodeEvent_eq_ok).mp hrun
  have hsent : sent = named wires := congrArg named (Call.returned_of_runAll hwires)
  rw [← hbytes] at hread
  have hwithin : WithinLimits exactFloats adapter.limits (named wires) := hsent ▸ hlimits
  have hall :=
    (@run_sent_iff _ _ _ _ _ [] _ _ _ .nil rfl hwires hwithin (show 3 ≤ 4096 by omega)).mp hread
  have hdot : validateIdentifier "." 512 = .ok () := hall _ mem_cons_self
  exact absurd hdot (by decide)

end Streams

end Wokcore.Protocols.Loopback
