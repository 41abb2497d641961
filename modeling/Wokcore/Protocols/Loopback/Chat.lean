import Wokcore.Protocols.Loopback.Transport
import Wokcore.Protocols.Outbound.ChatCalls

/-!
# The Chat codec read by the Chat decoder

A chunk of the codec is read as at most one event: the first one as `Created`, one with a delta as
that delta under a new item, the last one as nothing. With `include_usage` the codec writes a member
`usage` into every chunk, which is `null` until the last one, and the decoder takes a usage that is
`null` for a broken one; so the two do not understand each other as soon as usage is asked for
(`not_run_of_includeUsage`).
-/

set_option autoImplicit false

namespace Wokcore.Protocols.Loopback

open Lib Protocols.Stream Upstream Outbound AzureStream List ChatLimits UpstreamStreamDecoder
  Outcome Result
variable {fields : Members}

/-! ## Texts and calls -/

/-- The text of a response, in the order its deltas came. -/
def textOf (events : Events) : String :=
  events.foldl (fun text e => match e with
    | .outputTextDelta _ delta => text ++ delta
    | _ => text) ""

/-- A call as a client puts it together. -/
structure CallText where
  callId : String
  name : String
  arguments : String
deriving DecidableEq

/-- A delta is added to its call, which is the one of its identifier and its name. -/
def addToCalls (calls : List CallText) (callId name delta : String) : List CallText :=
  if calls.any fun call => call.callId == callId && call.name == name then
    calls.map fun call =>
      if call.callId == callId && call.name == name
        then { call with arguments := call.arguments ++ delta } else call
  else calls ++ [⟨callId, name, delta⟩]

/-- The calls of a response, in the order they began. -/
def callsOf (events : Events) : List CallText :=
  events.foldl (fun calls e => match e with
    | .toolCallDelta _ callId name delta => addToCalls calls callId name delta
    | _ => calls) []

/-- The same delta, of whatever item. -/
inductive SameDelta : CanonicalEvent → CanonicalEvent → Prop where
  | text (itemId itemId' delta : String) : SameDelta (.outputTextDelta itemId delta)
    (.outputTextDelta itemId' delta)
  | call (itemId itemId' callId name delta : String) :
      SameDelta (.toolCallDelta itemId callId name delta) (.toolCallDelta itemId' callId name delta)

/-- What is gathered from the deltas, without their items, is gathered from the same deltas. -/
theorem foldl_of_sameDelta {α : Type} {f : α → CanonicalEvent → α}
    (hf : ∀ a e e', SameDelta e e' → f a e' = f a e) {es es' : Events}
    (h : Forall₂ SameDelta es es') (a : α) : es'.foldl f a = es.foldl f a := by
  induction h generalizing a with
  | nil => rfl
  | cons he hes ih => rw [foldl_cons, foldl_cons, ih, hf _ _ _ he]

/-! ## Frames -/

section Frames

variable {F : FloatReader} {limits : UpstreamLimits} {q r : (AzureStream × Nat) × Events}
  {v : Value} {w : Json} {frame : SseFrame} {text : List Char} {fs : Members}

theorem mem_dropWhile_of_false {p : Char → Bool} {c : Char} (hc : c ∈ text) (hp : p c = false) :
    c ∈ text.dropWhile p := by
  induction text with
  | nil => cases hc
  | cons d text ih =>
    rw [dropWhile_cons]
    split
    · next hd =>
      rcases mem_cons.mp hc with rfl | hin
      · rw [hp] at hd
        cases hd
      · exact ih hin
    · exact hc

theorem mem_trim {c : Char} (hc : c ∈ text) (hp : isWhitespace c = false) : c ∈ trim text := by
  rw [trim, mem_reverse]
  exact mem_dropWhile_of_false (mem_reverse.mpr (mem_dropWhile_of_false hc hp)) hp

/-- The text of an object is not the marker of the end. -/
theorem isDone_object (h : frame.data = .ofList (Json.obj fs).toValue.tree.print) :
    isDone frame = false := by
  have hbrace : '\x7b' ∈ (Json.obj fs).toValue.tree.print := by
    exact mem_cons_self
  rw [isDone, h, String.toList_ofList, beq_eq_false_iff_ne]
  intro hdone
  have hmem := mem_trim hbrace (by decide)
  rw [hdone] at hmem
  exact absurd hmem (by decide)

theorem accountStreamEvents_eq_ok {emitted added n : Nat} :
    accountStreamEvents emitted added limits = .ok n ↔ n = emitted + added ∧ n ≤ u64Max ∧
    n ≤ limits.maxEvents := by
  simp only [accountStreamEvents, do_ok, checks_ok, checkedAdd_eq_some, Bool.not_eq_true',
    decide_eq_false_iff_not, Nat.not_lt]
  constructor
  · rintro ⟨total, ⟨hle, rfl⟩, hmax, rfl⟩
    exact ⟨rfl, hle, hmax⟩
  · rintro ⟨rfl, hle, hmax⟩
    exact ⟨_, ⟨hle, rfl⟩, hmax, rfl⟩

/-- A value and the frame it arrives as. -/
def Arrives (F : FloatReader) (limits : UpstreamLimits) (v : Value) (frame : SseFrame) : Prop :=
  Readable F limits v ∧ frame.data = .ofList v.tree.print

/-- One frame of an object: the document is decoded and its events are counted. -/
theorem decodeFrame_object (h : Carried F limits (Json.obj fs).toValue w)
    (hframe : frame.data = .ofList (Json.obj fs).toValue.tree.print)
    (hopen : q.1.1.sawDone = false) :
    decodeFrame F limits q frame = .ok r ↔ ∃ decoder decoded,
      q.1.1.decoder.decodeStreamChunk w = .ok (decoder, decoded) ∧ q.1.2 + decoded.length ≤ u64Max ∧
      q.1.2 + decoded.length ≤ limits.maxEvents ∧
      r = (({ q.1.1 with decoder }, q.1.2 + decoded.length), q.2 ++ decoded) := by
  obtain ⟨⟨s, emitted⟩, events⟩ := q
  replace hopen : s.sawDone = false := hopen
  have hread : readText F frame.data = .ok w := by rw [hframe]; exact h.readText
  simp only [decodeFrame, hopen, Bool.false_eq_true, if_false, isDone_object hframe, hread, do_ok,
    Except.ok.injEq, exists_eq_left', Prod.exists, accountStreamEvents_eq_ok]
  constructor
  · rintro ⟨decoder, decoded, hchunk, n, ⟨rfl, hword, hmax⟩, rfl⟩
    exact ⟨decoder, decoded, hchunk, hword, hmax, rfl⟩
  · rintro ⟨decoder, decoded, hchunk, hword, hmax, rfl⟩
    exact ⟨decoder, decoded, hchunk, _, ⟨rfl, hword, hmax⟩, rfl⟩

end Frames

/-! ## Chunks -/

section Chunks

open Outbound.ChatCodec hiding takeUsage
open Upstream.AzureResponseDecoder

variable {F : FloatReader} {limits : UpstreamLimits} {c : ChatCodec} {d : AzureResponseDecoder}
  {w : Json} {choices : List Json} {usage delta : Json} {finishReason : Json} {events : Events}

section

variable (h : Carried F limits (c.chunk choices usage) w)
include h

theorem readAs_chunk :
    ReadAs F (.obj (c.chunkFields choices usage)) w := readAs_toValue.mp h.document

theorem get?_usage_of_includeUsage (hinclude : c.context.response.includeUsage = true) :
    ∃ read, w.get? "usage" = some read ∧ ReadAs F usage read := by
  refine (readAs_chunk h).get? ?_ (chunkFields_nodup c choices usage)
  rw [chunkFields, hinclude]
  rfl

theorem get?_usage_of_not_includeUsage (hinclude : c.context.response.includeUsage = false) :
    w.get? "usage" = none := by
  refine (readAs_chunk h).get?_none ?_ (chunkFields_nodup c choices usage)
  rw [chunkFields, hinclude, lookup_append, lookup_filteredExtra,
    if_pos (show "usage" ∈ reservedKeys by decide)]
  rfl

end

theorem lookup_chunkFields_error (c : ChatCodec) (choices : List Json) (usage : Json) :
    (c.chunkFields choices usage).lookup "error" = (c.context.response.extra.get? "error").map
    Value.tree := by
  rw [chunkFields, lookup_append, lookup_filteredExtra,
    if_neg (show "error" ∉ reservedKeys by decide)]
  cases c.context.response.includeUsage <;> rfl

/-- The contexts whose chunks the decoder understands. -/
def Understood (context : ChatEncodeContext) : Prop :=
  context.response.includeUsage = false ∧ context.response.extra.get? "error" = none

/-- A chunk of any other context is refused. -/
theorem understood_of_decodeStreamChunk {r : Reading}
    (h : Carried F limits (c.chunk choices .null) w) (hchunk : d.decodeStreamChunk w = .ok r) :
    Understood c.context := by
  simp only [decodeStreamChunk, rejectError, do_ok] at hchunk
  obtain ⟨herror, r₁, -, r₂, -, husage⟩ := hchunk
  constructor
  · rw [← Bool.not_eq_true]
    intro hinclude
    obtain ⟨read, hget, hread⟩ := get?_usage_of_includeUsage h hinclude
    rw [readAs_null.mp hread] at hget
    rw [takeUsage, hget] at husage
    cases husage
  · cases hextra : c.context.response.extra.get? "error" with
    | none => rfl
    | some e =>
      obtain ⟨read, hget, -⟩ := (readAs_chunk h).get? (k := "error")
        (by rw [lookup_chunkFields_error, hextra]; rfl) (chunkFields_nodup c choices .null)
      rw [hget] at herror
      cases herror

/-- What the decoder does with the delta of a chunk. -/
def decodeMembers (r : Reading) (delta : Json) : Result Reading := do
  let r ← pushMember r delta "content" false
  let r ← pushMember r delta "reasoning_content" true
  pushCalls r delta id pushToolDelta

theorem ensureCreated_of_created (h : d.created = true) :
    ensureCreated (d, events) w = .ok (d, events) := by
  rw [ensureCreated, if_pos h]

theorem limits_ensureCreated {r : Reading} (h : ensureCreated (d, events) w = .ok r) :
    r.1.limits = d.limits := by
  cases hcreated : d.created with
  | true =>
    rw [ensureCreated_of_created hcreated] at h
    cases h
    rfl
  | false =>
    simp only [ensureCreated, hcreated, Bool.false_eq_true, if_false, do_ok] at h
    obtain ⟨-, events, -, rfl⟩ := h
    rfl

theorem boundedArray_singleton {x : Json} (h : 1 ≤ limits.maxCollectionItems) :
    boundedArray (.arr [x]) limits = .ok [x] := by
  simp only [boundedArray, do_ok, checks_ok, Bool.not_eq_true', decide_eq_false_iff_not,
    Nat.not_lt]
  exact ⟨_, rfl, h, rfl⟩

theorem requiredObject_of_readAs {key : String} {read : Json} (hget : w.get? key = some read)
    (hread : ReadAs F (.obj fields) read) : requiredObject w key = .ok read := by
  rw [requiredObject, hget, Option.filter_some, hread.isObject]
  rfl

/-- **One chunk with one choice.** -/
theorem decodeStreamChunk_choice
    (h : Carried F limits (c.chunk [c.choice (.obj fields) finishReason] usage) w)
    (hcontext : Understood c.context) (hlimits : 1 ≤ d.limits.maxCollectionItems) :
    ∃ read, ReadAs F (.obj fields) read ∧
      d.decodeStreamChunk w = (ensureCreated (d, []) w).bind fun r => decodeMembers r read := by
  have hread := readAs_chunk h
  have hnd := chunkFields_nodup c [c.choice (.obj fields) finishReason] usage
  obtain ⟨_, hget, harr⟩ := hread.get? (k := "choices") rfl hnd
  obtain ⟨choices, rfl, hchoices⟩ := harr.arr
  obtain ⟨choice, hchoice, rfl⟩ := forall₂_singleton_left hchoices
  obtain ⟨delta, hdelta, hdeltaRead⟩ := hchoice.get? (k := "delta") rfl
  have herror : w.get? "error" = none :=
    hread.get?_none (by rw [lookup_chunkFields_error, hcontext.2]; rfl) hnd
  have husage := get?_usage_of_not_includeUsage h hcontext.1
  refine ⟨delta, hdeltaRead, ?_⟩
  unfold decodeStreamChunk rejectError
  rw [herror]
  cases hcreated : ensureCreated (d, []) w with
  | error e => rfl
  | ok r =>
    have hbounded : boundedArray (.arr [choice]) r.1.limits = .ok [choice] :=
      boundedArray_singleton (by rw [limits_ensureCreated hcreated]; exact hlimits)
    have hobject := requiredObject_of_readAs hdelta hdeltaRead
    have hquiet : ∀ r : Reading, takeUsage r w = .ok r := by
      intro r
      rw [takeUsage, husage]
    show (do let r ← decodeChoices r w; takeUsage r w) = decodeMembers r delta
    simp only [hquiet, decodeChoices, hget, hbounded, ok_bind, foldlM_singleton, decodeDelta,
      hobject]
    exact bind_pure _

/-! ### Deltas -/

variable {r : Reading} {i : Nat} {state : ToolState}

theorem pushMember_of_lookup_none {key : String} {reasoning : Bool} (h : ReadAs F (.obj fields) w)
    (hkey : fields.lookup key = none) (hnd : (fields.map Prod.fst).Nodup := by simp) :
    pushMember r w key reasoning = .ok r := by
  rw [pushMember, stringAt, h.get?_none hkey hnd]
  rfl

theorem pushCalls_of_lookup_none (h : ReadAs F (.obj fields) w)
    (hkey : fields.lookup "tool_calls" = none) (hnd : (fields.map Prod.fst).Nodup := by simp) :
    pushCalls r w id pushToolDelta = .ok r := by
  rw [pushCalls, h.get?_none hkey hnd]

/-- A delta without text and calls. -/
theorem decodeMembers_quiet (h : ReadAs F (.obj fields) w)
    (hcontent : fields.lookup "content" = none)
    (hreasoning : fields.lookup "reasoning_content" = none)
    (hcalls : fields.lookup "tool_calls" = none) (hnd : (fields.map Prod.fst).Nodup := by simp) :
    decodeMembers r w = .ok r := by
  rw [decodeMembers, pushMember_of_lookup_none h hcontent hnd, ok_bind,
    pushMember_of_lookup_none h hreasoning hnd, ok_bind, pushCalls_of_lookup_none h hcalls hnd]

theorem decodeMembers_text {text : String} (h : ReadAs F (.obj [("content", .str text)]) w) :
    decodeMembers r w = pushText r text false := by
  have hcontent : pushMember r w "content" false = pushText r text false := by
    rw [pushMember, stringAt_of_readAs h rfl]
  rw [decodeMembers, hcontent]
  cases pushText r text false with
  | error e => rfl
  | ok r' =>
    rw [ok_bind, pushMember_of_lookup_none h rfl, ok_bind, pushCalls_of_lookup_none h rfl]

theorem decodeMembers_call {entry : Json} (h : ReadAs F (.obj [("tool_calls", .arr [entry])]) w)
    (hlimits : 1 ≤ r.1.limits.maxCollectionItems) :
    ∃ read, ReadAs F entry read ∧ decodeMembers r w = pushToolDelta r read := by
  obtain ⟨_, hget, harr⟩ := h.get? (k := "tool_calls") rfl
  obtain ⟨calls, rfl, hcalls⟩ := harr.arr
  obtain ⟨read, hread, rfl⟩ := forall₂_singleton_left hcalls
  refine ⟨read, hread, ?_⟩
  rw [decodeMembers, pushMember_of_lookup_none h rfl, ok_bind, pushMember_of_lookup_none h rfl,
    ok_bind]
  simp only [pushCalls, hget, boundedArray_singleton hlimits, ok_bind, id, foldlM_singleton]

/-- What the decoder of a Chat stream takes of an event. -/
def ChatAcceptable (limits : UpstreamLimits) : CanonicalEvent → Prop
  | .created responseId => validateAsciiIdentifier responseId limits.maxIdentifierBytes = .ok ()
  | .outputTextDelta _ delta => delta.utf8ByteSize ≤ limits.maxTextDeltaBytes
  | .toolCallDelta _ callId name delta =>
    validateAsciiIdentifier callId limits.maxIdentifierBytes = .ok () ∧
    validateAsciiIdentifier name limits.maxIdentifierBytes = .ok () ∧
      delta.utf8ByteSize ≤ limits.maxToolArgumentBytes
  | _ => True

theorem emitTool_of_known {arguments : String} (hknown : r.1.toolCalls.lookup i = some state)
    (hsize : arguments.utf8ByteSize ≤ r.1.limits.maxToolArgumentBytes)
    (hroom : r.2.length < r.1.limits.maxEvents) :
    emitTool r i arguments =
      .ok (r.1, r.2 ++ [.toolCallDelta state.itemId state.callId state.name arguments]) := by
  simp only [emitTool, do_ok, checks_ok, pushEvent_eq_ok, Bool.not_eq_true',
    decide_eq_false_iff_not, Nat.not_lt]
  exact ⟨hsize, state, hknown, _, ⟨hroom, rfl⟩, rfl⟩

/-- A delta of a call that is known. -/
theorem pushToolDelta_known {callId name delta : String}
    (h : ReadAs F (toolCallDelta i false callId name delta) w) (hword : i < 2 ^ 64)
    (hmax : i < r.1.limits.maxCollectionItems) (hknown : r.1.toolCalls.lookup i = some state)
    (hsize : delta.utf8ByteSize ≤ r.1.limits.maxToolArgumentBytes)
    (hroom : r.2.length < r.1.limits.maxEvents) :
    pushToolDelta r w =
      .ok (r.1, r.2 ++ [.toolCallDelta state.itemId state.callId state.name delta]) := by
  obtain ⟨function, hget, hread⟩ := ReadAs.get? (k := "function") h rfl
  have hobject := requiredObject_of_readAs hget hread
  have hid : stringAt w "id" = none := by rw [stringAt, ReadAs.get?_none h rfl]; rfl
  simp only [pushToolDelta, do_ok, checks_ok, indexAt_of_readAs (k := "index") h rfl hword,
    hobject, hid, stringAt_of_readAs (k := "arguments") hread rfl, Option.some.injEq,
    Except.ok.injEq, exists_eq_left', Bool.not_eq_true', decide_eq_false_iff_not, Nat.not_le,
    ge_iff_le, registerNamed, emitArguments]
  exact ⟨hmax, emitTool_of_known hknown hsize hroom⟩

/-- The decoder, with one more call. -/
def withCall (d : AzureResponseDecoder) (i : Nat) (callId name : String) : AzureResponseDecoder :=
  { d with
    toolCalls := (i, ⟨numbered "azure_tool_" d.nextItem, callId, name⟩) :: d.toolCalls
    nextItem := d.nextItem + 1 }

/-- The first delta of a call. -/
theorem pushToolDelta_new {callId name delta : String}
    (h : ReadAs F (toolCallDelta i true callId name delta) w) (hword : i < 2 ^ 64)
    (hmax : i < r.1.limits.maxCollectionItems) (hfresh : r.1.toolCalls.lookup i = none)
    (hcall : validateAsciiIdentifier callId r.1.limits.maxIdentifierBytes = .ok ())
    (hname : validateAsciiIdentifier name r.1.limits.maxIdentifierBytes = .ok ())
    (hsize : delta.utf8ByteSize ≤ r.1.limits.maxToolArgumentBytes)
    (hroom : r.2.length < r.1.limits.maxEvents) :
    pushToolDelta r w = .ok (withCall r.1 i callId name,
      r.2 ++ [.toolCallDelta (numbered "azure_tool_" r.1.nextItem) callId name delta]) := by
  obtain ⟨function, hget, hread⟩ := ReadAs.get? (k := "function") h rfl
  have hobject := requiredObject_of_readAs hget hread
  have hregister : r.1.registerTool i callId name = .ok (withCall r.1 i callId name) := by
    rw [registerTool, hcall, hname, hfresh]
    rfl
  have hknown : (withCall r.1 i callId name).toolCalls.lookup i =
      some ⟨numbered "azure_tool_" r.1.nextItem, callId, name⟩ := by
    rw [withCall, lookup_cons, beq_self_eq_true]
  simp only [pushToolDelta, do_ok, checks_ok, indexAt_of_readAs (k := "index") h rfl hword,
    hobject, stringAt_of_readAs (k := "id") h rfl, stringAt_of_readAs (k := "name") hread rfl,
    stringAt_of_readAs (k := "arguments") hread rfl, Option.some.injEq, Except.ok.injEq,
    exists_eq_left', Bool.not_eq_true', decide_eq_false_iff_not, Nat.not_le, ge_iff_le,
    registerNamed, emitArguments, hregister]
  exact ⟨hmax, emitTool_of_known (r := (withCall r.1 i callId name, r.2)) hknown hsize hroom⟩

theorem pushText_of_fits (text : String) (hsize : text.utf8ByteSize ≤ r.1.limits.maxTextDeltaBytes)
    (hroom : r.2.length < r.1.limits.maxEvents) : AzureResponseDecoder.pushText r text false = .ok
      ({ r.1 with nextItem := r.1.nextItem + 1 },
        r.2 ++ [.outputTextDelta (numbered "azure_item_" r.1.nextItem) text]) := by
  simp only [AzureResponseDecoder.pushText, do_ok, checks_ok, pushEvent_eq_ok, Bool.not_eq_true',
    decide_eq_false_iff_not, Nat.not_lt]
  exact ⟨hsize, _, ⟨hroom, rfl⟩, rfl⟩

/-! ### Whole chunks -/

variable {q : (AzureStream × Nat) × Events} {frame : SseFrame}

/-- The state of the stream after a chunk. -/
def afterChunk (q : (AzureStream × Nat) × Events) (r : Reading) : (AzureStream × Nat) × Events :=
  (({ q.1.1 with decoder := r.1 }, q.1.2 + r.2.length), q.2 ++ r.2)

section

variable (h : Arrives F limits (c.chunk [c.choice (.obj fields) finishReason] usage) frame)
  (hcontext : Understood c.context) (hopen : q.1.1.sawDone = false)
  (hlimits : 1 ≤ q.1.1.decoder.limits.maxCollectionItems)
include h hcontext hopen hlimits

theorem decodeFrame_of_ensureCreated {start : Reading}
    (hensure : ∀ w, Carried F limits (c.chunk [c.choice (.obj fields) finishReason] usage) w →
      ensureCreated (q.1.1.decoder, []) w = .ok start) : ∃ read, ReadAs F (.obj fields) read ∧
      ∀ r, decodeMembers start read = .ok r → q.1.2 + r.2.length ≤ u64Max →
        q.1.2 + r.2.length ≤ limits.maxEvents → decodeFrame F limits q frame =
          .ok (afterChunk q r) := by
  obtain ⟨⟨w, hw⟩, hframe⟩ := h
  obtain ⟨read, hread, hchunk⟩ := decodeStreamChunk_choice hw hcontext hlimits
  refine ⟨read, hread, fun r hr hword hmax => (decodeFrame_object hw hframe hopen).mpr
    ⟨r.1, r.2, ?_, hword, hmax, rfl⟩⟩
  rw [hchunk, hensure w hw]
  exact hr

/-- A chunk of a response that has been created. -/
theorem decodeFrame_choice (hcreated : q.1.1.decoder.created = true) : ∃ read,
      ReadAs F (.obj fields) read ∧ ∀ r, decodeMembers (q.1.1.decoder, []) read = .ok r →
        q.1.2 + r.2.length ≤ u64Max → q.1.2 + r.2.length ≤ limits.maxEvents →
        decodeFrame F limits q frame = .ok (afterChunk q r) :=
  decodeFrame_of_ensureCreated h hcontext hopen hlimits fun _ _ => ensureCreated_of_created hcreated

/-- The chunk that creates a response. -/
theorem decodeFrame_first {id : String} (hcreated : q.1.1.decoder.created = false)
    (hid : c.responseId = some id)
    (hvalid : validateAsciiIdentifier id q.1.1.decoder.limits.maxIdentifierBytes = .ok ())
      (hroom : 0 < q.1.1.decoder.limits.maxEvents) : ∃ read, ReadAs F (.obj fields) read ∧ ∀ r,
        decodeMembers ({ q.1.1.decoder with created := true }, [.created id]) read = .ok r →
          q.1.2 + r.2.length ≤ u64Max → q.1.2 + r.2.length ≤ limits.maxEvents →
          decodeFrame F limits q frame = .ok (afterChunk q r) := by
  refine decodeFrame_of_ensureCreated h hcontext hopen hlimits fun w hw => ?_
  have hlookup : (c.chunkFields [c.choice (.obj fields) finishReason] usage).lookup "id" =
      some (.str id) := by
    rw [show some (Json.str id) = some (.str (c.responseId.getD "")) by rw [hid]; rfl]
    rfl
  have hfound := stringAt_of_readAs (readAs_chunk hw) hlookup (chunkFields_nodup _ _ _)
  simp only [ensureCreated, hcreated, Bool.false_eq_true, if_false, hfound, Option.getD_some, do_ok,
    pushEvent_eq_ok]
  exact ⟨hvalid, _, ⟨hroom, rfl⟩, rfl⟩

end

end Chunks

/-! ## Calls in the codec -/

section Calls

open Outbound.ChatCodec

variable {c d : ChatCodec} {e : CanonicalEvent} {out : List Value}

/-- Calls are only ever added. -/
theorem tools_step (h : Call.stepOfCall transition c e = .ok (d, out)) :
    c.outputs.tools <+: d.outputs.tools := by
  have hhandle := handle_of_step transition_eq_ok h
  cases e with
  | created responseId =>
    obtain ⟨-, -, -, rfl⟩ := created_eq_ok.mp hhandle
    exact prefix_rfl
  | outputTextDelta itemId delta =>
    obtain ⟨-, -, outputs, hregister, -, rfl⟩ := textDelta_eq_ok.mp hhandle
    exact (tools_registerText hregister) ▸ prefix_rfl
  | reasoningDelta itemId delta => cases hhandle
  | toolCallDelta itemId callId name delta =>
    obtain ⟨-, -, outputs, i, isNew, hregister, -, rfl⟩ := toolDelta_eq_ok.mp hhandle
    exact (registers_of_registerTool hregister).1.grows
  | usage usage =>
    obtain ⟨-, -, value, -, -, rfl⟩ := takeUsage_eq_ok.mp hhandle
    exact prefix_rfl
  | completed =>
    obtain ⟨-, usage, -, -, rfl⟩ := completed_eq_ok.mp hhandle
    exact prefix_rfl
  | failed error =>
    obtain ⟨-, rfl⟩ := failed_eq_ok.mp hhandle
    exact prefix_rfl

end Calls

/-! ## Whole streams -/

section Streams

open Outbound.ChatCodec

variable {F : FloatReader} {limits : UpstreamLimits} {context : ChatEncodeContext}
  {q : (AzureStream × Nat) × Events} {c : ChatCodec} {values : List Value}
  {decoder : AzureResponseDecoder} {requestId id : String} {deltas : Events}

/-- Between two deltas: the decoder knows the calls of the codec under their numbers, and nothing
    has ended. -/
structure Tracking (context : ChatEncodeContext) (limits : UpstreamLimits) (c : ChatCodec)
    (q : (AzureStream × Nat) × Events) : Prop where
  sameContext : c.context = context
  sameLimits : c.limits = .default
  decoderLimits : q.1.1.decoder.limits = limits
  created : q.1.1.decoder.created = true
  completed : q.1.1.decoder.completed = false
  pendingUsage : q.1.1.decoder.pendingUsage = none
  finished : q.1.1.finished = false
  sawDone : q.1.1.sawDone = false
  counted : q.1.2 = q.2.length
  room : c.outputs.tools.length ≤ default.maxOutputItems
  known : ∀ i tool, c.outputs.tools[i]? = some tool →
    ∃ itemId, q.1.1.decoder.toolCalls.lookup i = some ⟨itemId, tool.callId, tool.name⟩
  fresh : ∀ i ≥ c.outputs.tools.length, q.1.1.decoder.toolCalls.lookup i = none

/-- The deltas that the decoder takes. -/
def ChatDelta (limits : UpstreamLimits) (e : CanonicalEvent) : Prop :=
  e.isDelta = true ∧ ChatAcceptable limits e

/-- The decoder after a delta, which changes nothing but its calls and its numbering. -/
theorem Tracking.after {d : ChatCodec} (hc : Tracking context limits c q)
    (hsame : d.context = c.context ∧ d.limits = c.limits)
    {toolCalls : List (Nat × ToolState)} {nextItem : Nat}
    (hdecoder : decoder = { q.1.1.decoder with toolCalls, nextItem }) (event : CanonicalEvent)
    (hroom : d.outputs.tools.length ≤ default.maxOutputItems)
    (hknown : ∀ i tool, d.outputs.tools[i]? = some tool →
      ∃ itemId, toolCalls.lookup i = some ⟨itemId, tool.callId, tool.name⟩)
    (hfresh : ∀ i ≥ d.outputs.tools.length, toolCalls.lookup i = none) :
    Tracking context limits d (afterChunk q (decoder, [event])) := by
  subst hdecoder
  exact { hc with
    sameContext := hsame.1.trans hc.sameContext
    sameLimits := hsame.2.trans hc.sameLimits
    counted := by
      show q.1.2 + 1 = (q.2 ++ [event]).length
      rw [hc.counted, length_append, length_singleton]
    room := hroom
    known := hknown
    fresh := hfresh }

/-- A chunk that adds one event. -/
theorem Tracking.foldlM_singleton (hc : Tracking context limits c q) (hcontext : Understood context)
    (hitems : 1 ≤ limits.maxCollectionItems) (hword : limits.maxEvents ≤ u64Max)
    (hroom : q.2.length < limits.maxEvents) {frame : SseFrame}
    (h : Arrives F limits (c.chunk [c.choice (.obj fields) .null] .null) frame)
    {event : CanonicalEvent}
    (hread : ∀ read, ReadAs F (.obj fields) read → decodeMembers (q.1.1.decoder, []) read =
    .ok (decoder, [event])) (r : (AzureStream × Nat) × Events) :
    [frame].foldlM (decodeFrame F limits) q = .ok r ↔
      True ∧ r = afterChunk q (decoder, [event]) := by
  obtain ⟨read, hdelta, hframe⟩ := decodeFrame_choice h (hc.sameContext ▸ hcontext) hc.sawDone
    (by rw [hc.decoderLimits]; exact hitems) hc.created
  have hcount : q.1.2 + 1 ≤ limits.maxEvents := by rw [hc.counted]; exact hroom
  have hok := hframe _ (hread read hdelta) (Nat.le_trans hcount hword) hcount
  rw [foldlM_cons_of_ok hok]
  show Except.ok _ = Except.ok r ↔ _
  rw [Except.ok.injEq, true_and, eq_comm]

/-- A delta of a call: what the decoder gives out and which calls it knows then. -/
theorem Tracking.call (hc : Tracking context limits c q) {itemId callId name delta : String}
    {tools : List ChatToolIdentity} {i : Nat} {isNew : Bool}
    (hregisters : Registers c.outputs.tools ⟨callId, name⟩ tools i isNew)
    (hroom : isNew = true → c.outputs.tools.length < default.maxOutputItems)
    (hn : tools.length ≤ limits.maxCollectionItems)
    (hacceptable : ChatAcceptable limits (.toolCallDelta itemId callId name delta))
    (hempty : 0 < q.1.1.decoder.limits.maxEvents) :
    ∃ itemId' toolCalls nextItem,
      (∀ read,
        ReadAs F (.obj [("tool_calls", .arr [toolCallDelta i isNew callId name delta])]) read →
          decodeMembers (q.1.1.decoder, []) read = .ok ({ q.1.1.decoder with toolCalls, nextItem },
            [.toolCallDelta itemId' callId name delta])) ∧
      tools.length ≤ default.maxOutputItems ∧
      (∀ i tool, tools[i]? = some tool →
        ∃ itemId, toolCalls.lookup i = some ⟨itemId, tool.callId, tool.name⟩) ∧
      ∀ i ≥ tools.length, toolCalls.lookup i = none := by
  obtain ⟨hcall, hname, hsize⟩ := hacceptable
  rw [← hc.decoderLimits] at hn hcall hname hsize
  have hword : ∀ i < default.maxOutputItems, i < 2 ^ 64 := fun i hi => Nat.lt_trans hi (by decide)
  cases hregisters with
  | known hknown =>
    obtain ⟨hlt, -⟩ := List.getElem?_eq_some_iff.mp hknown
    obtain ⟨itemId', hlookup⟩ := hc.known i _ hknown
    refine ⟨itemId', _, q.1.1.decoder.nextItem, fun read hread => ?_, hc.room, hc.known, hc.fresh⟩
    obtain ⟨entry, hentry, hdecode⟩ := decodeMembers_call (r := (q.1.1.decoder, [])) hread
      (Nat.le_trans (by omega) hn)
    rw [hdecode]
    exact pushToolDelta_known (r := (q.1.1.decoder, [])) hentry
      (hword i (Nat.lt_of_lt_of_le hlt hc.room)) (Nat.lt_of_lt_of_le hlt hn) hlookup hsize hempty
  | new =>
    have hlt := hroom rfl
    rw [length_append, length_singleton] at hn
    have hfresh := hc.fresh _ (Nat.le_refl _)
    let state : ToolState := ⟨numbered "azure_tool_" q.1.1.decoder.nextItem, callId, name⟩
    refine ⟨state.itemId, (c.outputs.tools.length, state) :: q.1.1.decoder.toolCalls,
      q.1.1.decoder.nextItem + 1, fun read hread => ?_, ?_, ?_, ?_⟩
    · obtain ⟨entry, hentry, hdecode⟩ :=
        decodeMembers_call (r := (q.1.1.decoder, [])) hread (Nat.le_trans (by omega) hn)
      rw [hdecode]
      exact pushToolDelta_new (r := (q.1.1.decoder, [])) hentry
        (hword _ hlt) hn hfresh hcall hname hsize hempty
    · rw [length_append, length_singleton]
      exact hlt
    · intro j tool hj
      rw [lookup_cons]
      rcases of_getElem?_concat hj with hold | ⟨rfl, rfl⟩
      · have hbound := (List.getElem?_eq_some_iff.mp hold).1
        rw [beq_eq_false_iff_ne.mpr (by omega)]
        exact hc.known j tool hold
      · rw [beq_self_eq_true]
        exact ⟨_, rfl⟩
    · intro j hj
      rw [length_append, length_singleton] at hj
      rw [lookup_cons, beq_eq_false_iff_ne.mpr (by omega)]
      exact hc.fresh j (by omega)

/-- **One delta.** -/
theorem echo_chat (hcontext : Understood context) (hitems : 1 ≤ limits.maxCollectionItems)
    (hword : limits.maxEvents ≤ u64Max) :
    Echo (Call.stepOfCall transition) (Arrives F limits) (decodeFrame F limits)
      (Tracking context limits) (fun c => c.outputs.tools.length ≤ limits.maxCollectionItems)
      (ChatDelta limits) (fun _ => True) (fun _ => SameDelta) limits.maxEvents where
  step := by
    rintro c d e ws ds q hc hn hroom ⟨hdelta, hacceptable⟩ hstep hsent
    have hhandle := handle_of_step transition_eq_ok hstep
    have hempty : 0 < q.1.1.decoder.limits.maxEvents := by
      rw [hc.decoderLimits]; exact Nat.zero_lt_of_lt hroom
    have hlimits := hc.decoderLimits
    have hvalid : Tracking context limits c.validated q := { hc with }
    cases e with
    | outputTextDelta itemId delta =>
      obtain ⟨-, -, outputs, hregister, rfl, rfl⟩ := textDelta_eq_ok.mp hhandle
      obtain ⟨frame, hframe, rfl⟩ := forall₂_singleton_left hsent
      have htools : outputs.tools = c.outputs.tools := tools_registerText hregister
      have htext := pushText_of_fits (r := (q.1.1.decoder, [])) delta
        (by rw [hlimits]; exact hacceptable) hempty
      have hread := hvalid.foldlM_singleton hcontext hitems hword hroom hframe
        fun read hdelta => (decodeMembers_text hdelta).trans htext
      exact ⟨_, _, hvalid.after (d := { c with contextValidated := true, outputs }) ⟨rfl, rfl⟩ rfl _
        (by rw [htools]; exact hc.room) (by rw [htools]; exact hc.known)
        (by rw [htools]; exact hc.fresh), .text _ _ _, hread⟩
    | toolCallDelta itemId callId name delta =>
      obtain ⟨-, -, outputs, i, isNew, hregister, rfl, rfl⟩ := toolDelta_eq_ok.mp hhandle
      obtain ⟨frame, hframe, rfl⟩ := forall₂_singleton_left hsent
      obtain ⟨hregisters, hnew⟩ := registers_of_registerTool hregister
      rw [hvalid.sameLimits] at hnew
      obtain ⟨itemId', toolCalls, nextItem, hdecode, hlength, hknown, hfresh⟩ :=
        hvalid.call hregisters hnew hn hacceptable hempty
      have hread := hvalid.foldlM_singleton hcontext hitems hword hroom hframe hdecode
      exact ⟨_, _, hvalid.after (d := { c with contextValidated := true, outputs })
        ⟨rfl, rfl⟩ rfl _ hlength hknown hfresh, .call _ _ _ _ _, hread⟩
    | reasoningDelta itemId delta => cases hhandle
    | _ => cases hdelta
  keep := fun h _ => h
  back := fun hn hstep => Nat.le_trans (tools_step hstep).length_le hn

/-- The frames of a stream of chunks, with the marker of its end. -/
def chunkTexts (values : List Value) : List FrameText :=
  (values.map fun v => valueText (none, v)) ++ [(none, "[DONE]".toList)]

theorem frameBytes_chunkTexts (values : List Value) :
    frameBytes (chunkTexts values) = (values.flatMap fun v => encodeSse none v) ++ doneMarker := by
  rw [frameBytes, chunkTexts, flatMap_append, flatMap_map]
  rfl

theorem written_chunkTexts (values : List Value) : ∀ p ∈ chunkTexts values,
    SseDecoder.Written p := by
  intro p hp
  rcases mem_append.mp hp with hvalue | hdone
  · obtain ⟨v, -, rfl⟩ := mem_map.mp hvalue
    exact written_encodeSse (none, v)
  · cases mem_singleton.mp hdone
    exact ⟨⟨by decide, by decide⟩, fun _ h => by cases h⟩

/-- A stream of chunks is within the limits of the decoder that gets it. -/
structure ChunksWithin (F : FloatReader) (limits : UpstreamLimits) (values : List Value) :
    Prop where
  fits : Fits limits (chunkTexts values)
  readable : ∀ v ∈ values, Readable F limits v

/-- The frames of the chunks, without the marker. -/
def chunkFrames (values : List Value) : List SseFrame := values.map fun v =>
    ⟨none, .ofList v.tree.print⟩

theorem arrives_chunkFrames (h : ∀ v ∈ values, Readable F limits v) :
    Forall₂ (Arrives F limits) values (chunkFrames values) := by
  rw [chunkFrames, forall₂_map_right_iff, forall₂_same]
  exact fun v hv => ⟨h v hv, rfl⟩

theorem framesOf_chunkTexts (values : List Value) :
    framesOf (chunkTexts values) = chunkFrames values ++ [⟨none, .ofList "[DONE]".toList⟩] := by
  rw [framesOf, chunkTexts, map_append, map_map]
  rfl

/-- The marker of the end. -/
theorem decodeFrame_done {r : (AzureStream × Nat) × Events} :
    decodeFrame F limits q ⟨none, .ofList "[DONE]".toList⟩ = .ok r ↔
      q.1.1.sawDone = false ∧ r = (({ q.1.1 with sawDone := true }, q.1.2), q.2) := by
  obtain ⟨⟨s, n⟩, events⟩ := q
  have hdone : isDone ⟨none, .ofList "[DONE]".toList⟩ = true := by decide
  cases hsaw : s.sawDone with
  | true => simp [decodeFrame, hsaw]
  | false =>
    have hok : decodeFrame F limits ((s, n), events) ⟨none, .ofList "[DONE]".toList⟩ =
        .ok (({ s with sawDone := true }, n), events) := by
      simp only [decodeFrame, hsaw, Bool.false_eq_true, if_false, hdone, if_true]
    rw [hok, Except.ok.injEq]
    exact ⟨fun h => ⟨rfl, h.symm⟩, fun h => h.2.symm⟩

theorem azureFinish_eq_ok {d d' : AzureStreamDecoder} {last : Events}
    (hready : SseDecoder.Ready d.sse) (hfailed : d.sse.failed = false)
    (hdone : d.response.sawDone = true) :
    AzureStreamDecoder.finish d = .ok (d', last) ↔
      d.response.finished = false ∧ ∃ decoder, d.response.decoder.finish = .ok (decoder, last) ∧
        d.emittedEvents + last.length ≤ u64Max ∧
        d.emittedEvents + last.length ≤ d.limits.maxEvents ∧ d' = { d with
          sse := d.sse.finish.1, emittedEvents := d.emittedEvents + last.length
          response := { d.response with decoder, finished := true } } := by
  unfold AzureStreamDecoder.finish
  simp only [do_ok, checks_ok, Bool.not_eq_true', endSse_of_ready hready hfailed, Except.ok.injEq,
    exists_eq_left', hdone, true_and, Prod.exists, accountStreamEvents_eq_ok, Prod.mk.injEq]
  refine and_congr_right fun _ => ?_
  constructor
  · rintro ⟨decoder, events, hfinish, n, ⟨rfl, hword, hmax⟩, rfl, rfl⟩
    exact ⟨decoder, hfinish, hword, hmax, rfl⟩
  · rintro ⟨decoder, hfinish, hword, hmax, rfl⟩
    exact ⟨decoder, last, hfinish, _, ⟨rfl, hword, hmax⟩, rfl, rfl⟩

/-- The run of the decoder over what arrives. -/
theorem run_chat {out : Events} (h : Fits limits (chunkTexts values)) :
    run F (.openAiChat (.new requestId limits)) [frameBytes (chunkTexts values)] = .ok out ↔
      ∃ t n events, (chunkFrames values).foldlM (decodeFrame F limits)
          ((⟨.new requestId limits, false, false⟩, 0), []) = .ok ((t, n), events) ∧
        t.sawDone = false ∧ t.finished = false ∧ ∃ d last, t.decoder.finish = .ok (d, last) ∧
          n + last.length ≤ u64Max ∧ n + last.length ≤ limits.maxEvents ∧ out = events ++ last := by
  obtain ⟨sse, receivedBytes, hreceive, hready, hfailed⟩ := receive_frames h
    (written_chunkTexts values) (⟨.new requestId limits, false, false⟩ : AzureStream)
  -- the push, which decodes the chunks and then sees the marker
  have hpush : ∀ e es, push F (.openAiChat (.new requestId limits))
      (frameBytes (chunkTexts values)) = .ok (e, es) ↔ ∃ t n,
        (chunkFrames values).foldlM (decodeFrame F limits)
          ((⟨.new requestId limits, false, false⟩, 0), []) = .ok ((t, n), es) ∧ t.sawDone = false ∧
        e = .openAiChat { AzureStreamDecoder.new requestId limits with
          sse, receivedBytes, response := { t with sawDone := true }, emittedEvents := n } := by
    intro e es
    show wrap .openAiChat (StreamDecoder.pushEach closed (decodeFrame F)
      (.fresh limits ⟨.new requestId limits, false, false⟩) (frameBytes (chunkTexts values))) = _ ↔
        _
    simp only [wrap_eq_ok, StreamDecoder.pushEach_eq_ok, hreceive, Except.ok.injEq, Prod.mk.injEq,
      framesOf_chunkTexts]
    constructor
    · rintro ⟨d, ⟨-, _, _, t, n, ⟨rfl, rfl⟩, hloop, rfl⟩, rfl⟩
      obtain ⟨⟨⟨u, m⟩, events⟩, hchunks, hdone⟩ := foldlM_append_eq_ok.mp hloop
      obtain ⟨hsaw, heq⟩ := decodeFrame_done.mp ((foldlM_singleton _ _ _).symm.trans hdone)
      cases heq
      exact ⟨u, m, hchunks, hsaw, rfl⟩
    · rintro ⟨t, n, hchunks, hsaw, rfl⟩
      refine ⟨_, ⟨rfl, _, _, _, _, ⟨rfl, rfl⟩, foldlM_append_eq_ok.mpr ⟨_, hchunks, ?_⟩, rfl⟩, rfl⟩
      exact (foldlM_singleton _ _ _).trans (decodeFrame_done.mpr ⟨hsaw, rfl⟩)
  rw [run_eq_ok]
  simp only [feed_singleton, hpush]
  constructor
  · rintro ⟨_, es, e', last, ⟨t, n, hchunks, hsaw, rfl⟩, hend, rfl⟩
    obtain ⟨d', hd', rfl⟩ := wrap_eq_ok.mp hend
    obtain ⟨hfinished, decoder, hfinish, hword, hmax, -⟩ :=
      (azureFinish_eq_ok hready hfailed rfl).mp hd'
    exact ⟨t, n, es, hchunks, hsaw, hfinished, decoder, last, hfinish, hword, hmax, rfl⟩
  · rintro ⟨t, n, es, hchunks, hsaw, hfinished, decoder, last, hfinish, hword, hmax, rfl⟩
    exact ⟨_, es, _, last, ⟨t, n, hchunks, hsaw, rfl⟩, wrap_eq_ok.mpr
      ⟨_, (azureFinish_eq_ok hready hfailed rfl).mpr ⟨hfinished, decoder, hfinish, hword, hmax,
        rfl⟩, rfl⟩, rfl⟩

/-- The first chunk of a response. -/
def firstChunk (context : ChatEncodeContext) (id : String) : Value :=
  let c : ChatCodec :=
    { ChatCodec.new context with contextValidated := true, responseId := some id }
  c.chunk [c.choice (.obj [("role", .str "assistant")]) .null] .null

/-- **What a whole response sends**: the first chunk, the deltas and the last chunk, and one with
    the usage if it is asked for. -/
theorem ChatCodec.runAll_cases {usage : Usage} {c : ChatCodec} {values : List Value}
    (h : Call.runAll transition (.new context)
      (whole id deltas usage) = .ok (c, values)) :
    ∃ (c₁ c₂ : ChatCodec) (vs : List Value) (value : Value),
      c₁ = { Outbound.ChatCodec.new context with contextValidated := true, responseId := some id } ∧
      Call.runAll transition c₁ deltas = .ok (c₂, vs) ∧ c.outputs = c₂.outputs ∧ c.terminal = true ∧
      values = firstChunk context id :: (vs ++
        (c₂.chunk [c₂.choice (.obj []) (.str c₂.context.response.finishReason.asStr)] .null ::
          if c₂.context.response.includeUsage then [c₂.chunk [] value.tree] else [])) := by
  obtain ⟨d₁, c₂, d₃, o₁, vs, o₃, o₄, hcreated, hdeltas, husage, hlast, rfl⟩ := steps_of_runAll h
  obtain ⟨-, -, rfl, rfl⟩ := created_eq_ok.mp (handle_of_step transition_eq_ok hcreated)
  obtain ⟨-, -, value, -, rfl, rfl⟩ := takeUsage_eq_ok.mp (handle_of_step transition_eq_ok husage)
  obtain ⟨-, used, -, rfl, rfl⟩ := completed_eq_ok.mp (handle_of_step transition_eq_ok hlast)
  exact ⟨_, c₂, vs, used, rfl, hdeltas, rfl, rfl, rfl⟩

/-- **Chunks with a usage or an error are never read back.** -/
theorem ChatCodec.understood_of_run {usage : Usage} {c : ChatCodec} {values : List Value}
    {out : Events} (hvalues : Call.runAll transition (.new context)
      (whole id deltas usage) = .ok (c, values))
    (hlimits : ChunksWithin F limits values) (hrun : run F
      (.openAiChat (.new requestId limits)) [frameBytes (chunkTexts values)] = .ok out) :
      Understood context := by
  obtain ⟨c₁, c₂, vs, value, rfl, -, -, -, rfl⟩ := runAll_cases hvalues
  obtain ⟨t, n, events, hchunks, -⟩ := (run_chat hlimits.fits).mp hrun
  obtain ⟨q, hfirst, -⟩ := do_eq_ok.mp ((foldlM_cons ..).symm.trans hchunks)
  obtain ⟨w, hw⟩ := hlimits.readable _ mem_cons_self
  obtain ⟨decoder, decoded, hchunk, -⟩ := (decodeFrame_object hw rfl rfl).mp hfirst
  exact understood_of_decodeStreamChunk hw hchunk

/-- What the decoder has after the first chunk. -/
theorem tracking_start (context : ChatEncodeContext) (limits : UpstreamLimits)
    (requestId id : String) :
    Tracking context limits
      { ChatCodec.new context with contextValidated := true, responseId := some id }
      ((⟨{ AzureResponseDecoder.new requestId limits with created := true }, false, false⟩, 1),
        [.created id]) where
  sameContext := rfl
  sameLimits := rfl
  decoderLimits := rfl
  created := rfl
  completed := rfl
  pendingUsage := rfl
  finished := rfl
  sawDone := rfl
  counted := rfl
  room := Nat.zero_le _
  known := by
    intro i tool htool
    cases htool
  fresh := fun _ _ => rfl

theorem finish_of_created {d : AzureResponseDecoder} (hcompleted : d.completed = false)
    (hcreated : d.created = true) (husage : d.pendingUsage = none)
    (hroom : 0 < d.limits.maxEvents) :
    d.finish = .ok ({ d with created := true, completed := true, pendingUsage := none },
      [.completed]) := by
  simp only [AzureResponseDecoder.finish, hcompleted, Bool.false_eq_true, if_false, hcreated,
    husage, do_ok]
  refine ⟨[.completed], ?_, rfl⟩
  show [CanonicalEvent.completed].foldlM (fun done event => pushEvent done event d.limits) [] = _
  rw [foldlM_singleton]
  exact pushEvent_eq_ok.mpr ⟨hroom, rfl⟩

/-- **Chunks of any other context are read back**, each delta under a new item. -/
theorem ChatCodec.run_of_understood {usage : Usage} (hcontext : Understood context)
    (hvalues : Call.runAll transition (.new context) (whole id deltas usage) =
      .ok (c, values))
    (hlimits : ChunksWithin F limits values)
    (hacceptable : ∀ e ∈ .created id :: deltas, ChatAcceptable limits e)
    (hdeltas : AllDeltas deltas) (hitems : 1 ≤ limits.maxCollectionItems)
    (hcalls : c.outputs.tools.length ≤ limits.maxCollectionItems)
    (hcount : deltas.length + 2 ≤ limits.maxEvents) (hword : limits.maxEvents ≤ u64Max) :
    ∃ bs, Forall₂ SameDelta deltas bs ∧
      run F (.openAiChat (.new requestId limits)) [frameBytes (chunkTexts values)] =
        .ok (.created id :: (bs ++ [.completed])) := by
  obtain ⟨c₁, c₂, vs, value, rfl, hrun, houtputs, -, rfl⟩ := runAll_cases hvalues
  rw [houtputs] at hcalls
  rw [forall_mem_cons] at hacceptable
  have harrives := arrives_chunkFrames hlimits.readable
  obtain ⟨first, rest, hfirst, hrest, hframes⟩ := forall₂_cons_left_iff.mp harrives
  obtain ⟨es, fs, rfl, hes, hfs⟩ := forall₂_append_left hrest
  -- the first chunk
  obtain ⟨role, hrole, hcreate⟩ := decodeFrame_first
    (q := ((⟨.new requestId limits, false, false⟩, 0), [])) hfirst hcontext rfl hitems rfl rfl
    hacceptable.1 (by show 0 < limits.maxEvents; omega)
  have hstart := hcreate (_, [.created id]) (decodeMembers_quiet hrole rfl rfl rfl)
    (by show 0 + 1 ≤ u64Max; omega) (by show 0 + 1 ≤ limits.maxEvents; omega)
  -- the deltas
  obtain ⟨t, bs, htracking, hsame, hread⟩ := (echo_chat hcontext hitems hword).run
    (tracking_start context limits requestId id) hcalls (by rw [length_singleton]; omega)
    (fun e he => ⟨hdeltas e he, hacceptable.2 e he⟩) hrun hes
  have hmiddle := (hread _).mpr ⟨fun _ _ => trivial, rfl⟩
  have hlength : bs.length = deltas.length := hsame.length_eq.symm
  -- the last chunk, which adds nothing
  have hunderstood : Understood c₂.context := htracking.sameContext ▸ hcontext
  rw [hunderstood.1, if_neg (by simp)] at hfs
  obtain ⟨last, hlast, rfl⟩ := forall₂_singleton_left hfs
  have hcounted : t.2 = bs.length + 1 := by
    rw [htracking.counted, length_append, length_singleton, Nat.add_comm]
  obtain ⟨empty, hempty, hend⟩ := decodeFrame_choice
    (q := (t, [.created id] ++ bs)) hlast hunderstood htracking.sawDone
    (by rw [htracking.decoderLimits]; exact hitems) htracking.created
  have hstop := hend (_, []) (decodeMembers_quiet hempty rfl rfl rfl)
    (by show t.2 ≤ u64Max; omega) (by show t.2 ≤ limits.maxEvents; omega)
  refine ⟨bs, hsame, (run_chat hlimits.fits).mpr ?_⟩
  refine ⟨t.1, t.2, [.created id] ++ bs, ?_, htracking.sawDone, htracking.finished, _, [.completed],
    finish_of_created htracking.completed htracking.created htracking.pendingUsage
      (by rw [htracking.decoderLimits]; omega),
    by rw [length_singleton]; omega, by rw [length_singleton]; omega, by simp⟩
  rw [hframes, foldlM_cons_of_ok hstart, foldlM_append_eq_ok]
  refine ⟨_, hmiddle, ?_⟩
  rw [foldlM_singleton, hstop, afterChunk]
  simp

theorem textOf_whole (id : String) (bs : Events) :
    textOf (.created id :: (bs ++ [.completed])) = textOf bs := by
  simp only [textOf, foldl_cons, foldl_append, foldl_nil]

theorem callsOf_whole (id : String) (bs : Events) :
    callsOf (.created id :: (bs ++ [.completed])) = callsOf bs := by
  simp only [callsOf, foldl_cons, foldl_append, foldl_nil]

/-- The counts of a usage have come through. -/
def KeepsUsage (usage : Usage) (events : Events) : Prop :=
  ∃ u, .usage u ∈ events ∧ u.inputTokens = usage.inputTokens ∧ u.outputTokens = usage.outputTokens ∧
    u.cachedInputTokens.getD 0 = usage.cachedInputTokens.getD 0 ∧
    u.reasoningTokens.getD 0 = usage.reasoningTokens.getD 0

/-- **Chat and back.** What the codec sends of a response whose identifiers and sizes the decoder
    takes is read back with the same text and the same calls exactly if usage is not asked for and
    the chunks have no member `error`. -/
theorem run_encodeChunk_iff {adapter : UpstreamAdapter} {requestId id : String}
    {deltas : List CanonicalEvent} {usage : Usage} {c : ChatCodec} {bytes : Bytes}
    (hprotocol : adapter.protocol = .openAiChat) (hdeltas : AllDeltas deltas)
    (hsent : Call.runAll encodeChunk (.new context)
      (.created id :: (deltas ++ [.usage usage, .completed])) = .ok (c, bytes))
    (hlimits : ChunksWithin F adapter.limits (Call.returned transition (.new context)
      (.created id :: (deltas ++ [.usage usage, .completed]))))
    (hacceptable : ∀ e ∈ .created id :: deltas, ChatAcceptable adapter.limits e)
    (hitems : 1 ≤ adapter.limits.maxCollectionItems)
    (hcalls : c.outputs.tools.length ≤ adapter.limits.maxCollectionItems)
    (hcount : deltas.length + 2 ≤ adapter.limits.maxEvents)
    (hword : adapter.limits.maxEvents ≤ u64Max) :
    (∃ events, (adapter.streamDecoder requestId).run F [bytes] = .ok events ∧
        textOf events = textOf deltas ∧ callsOf events = callsOf deltas ∧
        (context.response.includeUsage = true → KeepsUsage usage events)) ↔
      context.response.includeUsage = false ∧ context.response.extra.get? "error" = none := by
  obtain ⟨values, hvalues, hbytes⟩ := runAll_encodeChunk rfl hsent
  obtain ⟨-, -, -, -, -, -, -, hterminal, -⟩ := ChatCodec.runAll_cases hvalues
  have hdecoder : adapter.streamDecoder requestId = .openAiChat
      (.new requestId adapter.limits) := by
    rw [UpstreamAdapter.streamDecoder, hprotocol]
  rw [Call.returned_of_runAll hvalues] at hlimits
  rw [hterminal, if_pos rfl, ← frameBytes_chunkTexts] at hbytes
  rw [hdecoder, hbytes]
  constructor
  · rintro ⟨events, hrun, -⟩
    exact ChatCodec.understood_of_run hvalues hlimits hrun
  · intro hcontext
    obtain ⟨bs, hsame, hrun⟩ := ChatCodec.run_of_understood hcontext hvalues hlimits hacceptable
      hdeltas hitems hcalls hcount hword
    refine ⟨_, hrun, ?_, ?_, fun hinclude => ?_⟩
    · rw [textOf_whole]
      exact foldl_of_sameDelta (by rintro _ _ _ ⟨⟩ <;> rfl) hsame _
    · rw [callsOf_whole]
      exact foldl_of_sameDelta (by rintro _ _ _ ⟨⟩ <;> rfl) hsame _
    · rw [hcontext.1] at hinclude
      cases hinclude

/-- Chunks are within limits that leave room for them. -/
theorem chunksWithin_room (hcount : (chunkTexts values).length ≤ 4096)
    (hdepth : ∀ v ∈ values, v.tree.depth ≤ maxNesting) :
    ChunksWithin exactFloats (roomForTexts (chunkTexts values)) values where
  fits := fits_roomForTexts hcount
  readable := by
    intro v hv
    exact readable_roomForTexts (p := (none, v)) (mem_append_left _ (mem_map_of_mem hv))
      (hdepth v hv)

/-- A text and a call in two parts. -/
theorem run_encodeChunk_iff_twoParts :
    let deltas := [.outputTextDelta "i" "x", .toolCallDelta "j" "c" "n" "y",
      .toolCallDelta "j" "c" "n" "z"]
    let events := .created "r" :: (deltas ++ [.usage emptyUsage, .completed])
    let sent := Call.returned transition (.new (chatContext false)) events
    let adapter : UpstreamAdapter :=
      { plainAdapter .openAiChat with limits := roomForTexts (chunkTexts sent) }
    ∃ c bytes, Call.runAll encodeChunk (.new (chatContext false)) events = .ok (c, bytes) ∧
      ∃ read, (adapter.streamDecoder "q").run exactFloats [bytes] = .ok read ∧
        textOf read = "x" ∧ callsOf read = [⟨"c", "n", "yz"⟩] := by
  intro deltas events sent adapter
  have hcalls : ((Call.runAll encodeChunk (.new (chatContext false)) events).toOption.map
      fun r => decide (r.1.outputs.tools.length ≤ 256)) = some true := by decide +kernel
  have hlimits : ChunksWithin exactFloats adapter.limits sent :=
    chunksWithin_room (by decide +kernel) (by decide +kernel)
  cases hrun : Call.runAll encodeChunk (.new (chatContext false)) events with
  | error e =>
    rw [hrun] at hcalls
    cases hcalls
  | ok r =>
    rw [hrun] at hcalls
    refine ⟨r.1, r.2, rfl, ?_⟩
    have hacceptable : ∀ e ∈ .created "r" :: deltas, ChatAcceptable adapter.limits e := by
      simp only [deltas, forall_mem_cons, not_mem_nil, false_implies, implies_true, and_true,
        ChatAcceptable]
      decide +kernel
    obtain ⟨read, hread, htext, hcall, -⟩ :=
      (@run_encodeChunk_iff _ _ adapter "q" "r" deltas emptyUsage r.1 r.2 rfl
      (by simp [deltas, AllDeltas, CanonicalEvent.isDelta]) hrun hlimits hacceptable
      (show 1 ≤ 256 by omega) (of_decide_eq_true (Option.some.inj hcalls)) (show 5 ≤ 4096 by omega)
      (show 4096 ≤ u64Max by decide)).mpr ⟨rfl, rfl⟩
    exact ⟨read, hread, htext.trans (by decide), hcall.trans (by decide)⟩

/-- A text, with usage asked for, is sent and not read back: the first chunk has a usage that is
    `null`. -/
theorem run_encodeChunk_includeUsage :
    let events := [.created "r", .outputTextDelta "i" "x", .usage emptyUsage, .completed]
    let sent := Call.returned transition (.new (chatContext true)) events
    let adapter : UpstreamAdapter :=
      { plainAdapter .openAiChat with limits := roomForTexts (chunkTexts sent) }
    ChunksWithin exactFloats adapter.limits sent ∧
      ∃ c bytes, Call.runAll encodeChunk (.new (chatContext true)) events = .ok (c, bytes) ∧
        ∀ read, (adapter.streamDecoder "q").run exactFloats [bytes] ≠ .ok read := by
  intro events sent adapter
  have hlimits : ChunksWithin exactFloats adapter.limits sent :=
    chunksWithin_room (by decide +kernel) (by decide +kernel)
  refine ⟨hlimits, ?_⟩
  obtain ⟨r, hrun⟩ :=
    exists_of_isOk (x := Call.runAll encodeChunk (.new (chatContext true)) events)
      (by decide +kernel)
  refine ⟨r.1, r.2, hrun, fun read hread => ?_⟩
  obtain ⟨values, hvalues, hbytes⟩ := runAll_encodeChunk rfl hrun
  obtain ⟨-, -, -, -, -, -, -, hterminal, -⟩ :=
    @ChatCodec.runAll_cases _ "r" [.outputTextDelta "i" "x"] emptyUsage _ _ hvalues
  have hsent : sent = values := Call.returned_of_runAll hvalues
  have hwithin : ChunksWithin exactFloats adapter.limits values := hsent ▸ hlimits
  rw [hterminal, if_pos rfl, ← frameBytes_chunkTexts] at hbytes
  rw [hbytes] at hread
  have hnot :=
    (@ChatCodec.understood_of_run _ _ _ "q" "r" [.outputTextDelta "i" "x"] emptyUsage _ _ _ hvalues
      hwithin hread).1
  cases hnot

end Streams

end Wokcore.Protocols.Loopback
