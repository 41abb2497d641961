import Wokcore.Protocols.Outbound.ChatCalls

/-!
# The streamed and the whole Chat message

`encode_response` makes the same checks as the streaming codec, event by event, and one more: the
sizes of all deltas together are bounded. So the aggregator is the codec with the texts it has
gathered (`gathered`), and both get through the same lists as long as the deltas fit.

`readChunk` is a client that puts a stream together again: it adds up the contents, and the
arguments of every call under its index. What it has read is what the aggregator has gathered
(`Follows`).
-/

set_option autoImplicit false

namespace Wokcore.Protocols.Outbound

open Lib Outcome Result Protocols.Stream ChatResponseAggregator List Json

open Upstream (stringAt)
open ChatCodec (toolCallDelta transition_eq_ok completed_eq_ok failed_eq_ok)

/-! ## A client of the stream -/

/-- A call as far as it has arrived. -/
structure PartialCall where
  index : Json
  id : String
  name : String
  arguments : String

/-- A message as far as it has arrived. -/
structure PartialMessage where
  role : Option String
  content : String
  calls : List PartialCall

/-- A call is begun by the first delta with its index, which names it, and continued by the
    others. -/
def addCallDelta (calls : List PartialCall) (entry : Json) : List PartialCall :=
  let index := (entry.get? "index").getD .null
  let function := (entry.get? "function").getD .null
  let text := (stringAt function "arguments").getD ""
  if calls.any fun call => call.index = index then
    calls.map fun call => if call.index = index
      then { call with arguments := call.arguments ++ text } else call
  else calls ++ [⟨index, (stringAt entry "id").getD "", (stringAt function "name").getD "", text⟩]

namespace PartialMessage

def empty : PartialMessage := ⟨none, "", []⟩

/-- One more delta. -/
def add (m : PartialMessage) (delta : Json) : PartialMessage where
  role := (stringAt delta "role").or m.role
  content := m.content ++ (stringAt delta "content").getD ""
  calls := (((delta.get? "tool_calls").bind asArray).getD []).foldl addCallDelta m.calls

/-- The message, with a text that is empty read as none. -/
def message (m : PartialMessage) : Json :=
  .obj ([("role", optionJson .str m.role),
    ("content", if m.content.isEmpty then .null else .str m.content)] ++ if m.calls.isEmpty then []
      else [("tool_calls",
        .arr (m.calls.map fun call => .obj [("id", .str call.id), ("type", .str "function"),
          ("function", .obj [("name", .str call.name), ("arguments", .str call.arguments)])]))])

end PartialMessage

/-- The first choice of a document. -/
def firstChoice (document : Json) : Option Json := do
  let choices ← document.get? "choices"
  let choices ← choices.asArray
  choices.head?

/-- What a chunk adds to a message. -/
def readChunk (m : PartialMessage) (chunk : Value) : PartialMessage :=
  match (firstChoice chunk.tree).bind fun choice => choice.get? "delta" with
  | some delta => m.add delta
  | none => m

/-- The message of a whole response. -/
def choiceMessage (value : Value) : Option Json :=
  (firstChoice value.tree).bind fun choice => choice.get? "message"

/-! ### Reading chunks -/

section Reading

variable {c : ChatCodec} {m : PartialMessage}

theorem firstChoice_chunk (c : ChatCodec) (choices : List Json) (usage : Json) :
    firstChoice (c.chunk choices usage).tree = (choices.map norm).head? := by
  have hget : (c.chunk choices usage).tree.get? "choices" = some (arr choices).norm :=
    get?_norm_obj "choices" (chunkFields_nodup c choices usage)
  rw [firstChoice, hget, norm_arr]
  rfl

theorem readChunk_choice {d : ChatCodec} (m : PartialMessage) (delta finishReason usage : Json) :
    readChunk m (c.chunk [d.choice delta finishReason] usage) = m.add delta.norm := by
  have hdelta : (d.choice delta finishReason).norm.get? "delta" = some delta.norm :=
    get?_norm_obj "delta"
  rw [readChunk, firstChoice_chunk]
  show (match (d.choice delta finishReason).norm.get? "delta" with
    | some delta => m.add delta
    | none => m) = _
  rw [hdelta]

theorem readChunk_usage (m : PartialMessage) (usage : Json) :
    readChunk m (c.chunk [] usage) = m := by
  rw [readChunk, firstChoice_chunk]
  rfl

theorem readChunk_errorEnvelope (m : PartialMessage) (error : GatewayError) :
    readChunk m (chatErrorEnvelope error) = m := by
  rfl

theorem add_role (m : PartialMessage) (role : String) :
    m.add (obj [("role", .str role)]).norm = { m with role := some role } := by
  simp [PartialMessage.add, stringAt, get?_norm_obj, lookup_cons, -Read.norm_obj]

theorem add_content (m : PartialMessage) (text : String) :
    m.add (obj [("content", .str text)]).norm = { m with content := m.content ++ text } := by
  simp [PartialMessage.add, stringAt, get?_norm_obj, lookup_cons, -Read.norm_obj]

theorem add_toolCalls (m : PartialMessage) (entry : Json) :
    m.add (obj [("tool_calls", .arr [entry])]).norm =
      { m with calls := addCallDelta m.calls entry.norm } := by
  simp [PartialMessage.add, stringAt, get?_norm_obj, lookup_cons, -Read.norm_obj]

theorem add_nothing (m : PartialMessage) : m.add (obj []).norm = m := by
  have hget : ∀ key, (obj []).norm.get? key = none := by
    intro key
    rfl
  simp only [PartialMessage.add, stringAt, hget]
  simp

end Reading

/-! ### Calls -/

/-- The calls of the aggregator as a client sees them. -/
def partialCalls (tools : List ChatToolIdentity) (arguments : List String) : List PartialCall :=
  (tools.zip arguments).zipIdx.map fun entry => ⟨.ofNat entry.2, entry.1.1.callId, entry.1.1.name,
    entry.1.2⟩

section Calls

variable {tools : List ChatToolIdentity} {arguments : List String} {callId name delta : String}

/-- What a client reads off the entry of a call. -/
theorem addCallDelta_toolCallDelta (calls : List PartialCall) (i : Nat) (isNew : Bool)
    (callId name delta : String) :
    addCallDelta calls (toolCallDelta i isNew callId name delta).norm =
      if calls.any fun call => call.index = .ofNat i then
        calls.map fun call =>
          if call.index = .ofNat i then { call with arguments := call.arguments ++ delta } else call
      else calls ++ [⟨.ofNat i, if isNew then callId else "", if isNew then name else "",
        delta⟩] := by
  have hindex : (toolCallDelta i isNew callId name delta).norm.get? "index" = some (.ofNat i) := by
    cases isNew <;> exact get?_norm_obj "index"
  cases isNew with
  | true =>
    have hfunction : (toolCallDelta i true callId name delta).norm.get? "function" =
        some (obj [("name", .str name), ("arguments", .str delta)]).norm :=
      get?_norm_obj "function"
    have hid : stringAt (toolCallDelta i true callId name delta).norm "id" = some callId :=
      stringAt_norm rfl
    have hname : stringAt (obj [("name", .str name), ("arguments", .str delta)]).norm "name" =
        some name :=
      stringAt_norm rfl
    have htext : stringAt (obj [("name", .str name), ("arguments", .str delta)]).norm "arguments" =
        some delta :=
      stringAt_norm rfl
    simp only [addCallDelta, hindex, hfunction, hid, Option.getD_some, hname, htext, if_true]
  | false =>
    have hfunction : (toolCallDelta i false callId name delta).norm.get? "function" =
        some (obj [("arguments", .str delta)]).norm := get?_norm_obj "function"
    have htext : stringAt (obj [("arguments", .str delta)]).norm "arguments" = some delta :=
      stringAt_norm rfl
    have hid : (toolCallDelta i false callId name delta).norm.get? "id" = none :=
      get?_norm_obj "id"
    have hid' : stringAt (toolCallDelta i false callId name delta).norm "id" = none := by
      rw [stringAt, hid]
      rfl
    have hname : stringAt (obj [("arguments", .str delta)]).norm "name" = none := by
      rfl
    simp only [addCallDelta, hindex, hfunction, hid', Option.getD_some, Option.getD_none,
      hname, htext, Bool.false_eq_true, if_false]

theorem partialCalls_concat (tools : List ChatToolIdentity) (arguments : List String)
    (tool : ChatToolIdentity) (text : String) (h : arguments.length = tools.length) :
    partialCalls (tools ++ [tool]) (arguments ++ [text]) =
      partialCalls tools arguments ++ [⟨.ofNat tools.length, tool.callId, tool.name, text⟩] := by
  rw [partialCalls, zip_append h.symm, zipIdx_append, map_append, partialCalls]
  simp [h]

theorem getElem?_partialCalls {tool : ChatToolIdentity} {text : String} {k : Nat}
    (htool : tools[k]? = some tool) (htext : arguments[k]? = some text) :
    (partialCalls tools arguments)[k]? = some ⟨.ofNat k, tool.callId, tool.name, text⟩ := by
  have hzip : (tools.zip arguments)[k]? = some (tool, text) := getElem?_zip_eq_some.mpr
    ⟨htool, htext⟩
  rw [partialCalls, getElem?_map, getElem?_zipIdx, hzip]
  simp

theorem length_partialCalls (h : arguments.length = tools.length) :
    (partialCalls tools arguments).length = tools.length := by
  rw [partialCalls, length_map, length_zipIdx, length_zip, h, Nat.min_self]

theorem modify_length (texts : List String) (text : String) (f : String → String) :
    (texts ++ [text]).modify texts.length f = texts ++ [f text] := by
  induction texts with
  | nil => rfl
  | cons t texts ih => rw [cons_append, length_cons, modify_succ_cons, ih, cons_append]

/-- A new call. -/
theorem addCallDelta_new (h : arguments.length = tools.length) (hroom : tools.length < 2 ^ 64) :
    addCallDelta (partialCalls tools arguments)
      (toolCallDelta tools.length true callId name delta).norm = partialCalls
      (tools ++ [⟨callId, name⟩]) (arguments ++ [delta]) := by
  have hfree : ((partialCalls tools arguments).any fun call => call.index = .ofNat tools.length) =
      false := by
    rw [any_eq_false]
    intro call hcall
    obtain ⟨⟨entry, i⟩, hentry, rfl⟩ := mem_map.mp hcall
    obtain ⟨-, hlt, -⟩ := mem_zipIdx hentry
    rw [length_zip, h, Nat.min_self] at hlt
    rw [decide_eq_true_eq]
    intro heq
    have := ofNat_inj (by omega) hroom heq
    omega
  rw [addCallDelta_toolCallDelta, hfree, if_neg (by simp), partialCalls_concat _ _ _ _ h]
  rfl

/-- A known call. -/
theorem addCallDelta_known {i : Nat} (h : arguments.length = tools.length)
    (hroom : tools.length ≤ 2 ^ 64) (hi : i < tools.length) :
    addCallDelta (partialCalls tools arguments) (toolCallDelta i false callId name delta).norm =
      partialCalls tools (arguments.modify i (· ++ delta)) := by
  have hknown : ((partialCalls tools arguments).any fun call => call.index = .ofNat i) = true := by
    rw [any_eq_true]
    refine ⟨_, mem_of_getElem? (getElem?_partialCalls (getElem?_eq_getElem hi)
      (getElem?_eq_getElem (by omega))), by simp⟩
  rw [addCallDelta_toolCallDelta, hknown, if_pos rfl]
  refine ext_getElem? ?_
  intro k
  rw [getElem?_map]
  rcases Nat.lt_or_ge k tools.length with hk | hk
  · have harguments : arguments[k]? = some arguments[k] := getElem?_eq_getElem (by omega)
    have hmodified : (arguments.modify i (· ++ delta))[k]? =
        some (if i = k then arguments[k] ++ delta else arguments[k]) := by
      rw [getElem?_modify, harguments]
      split <;> rfl
    rw [getElem?_partialCalls (getElem?_eq_getElem hk) harguments,
      getElem?_partialCalls (getElem?_eq_getElem hk) hmodified, Option.map_some]
    by_cases hik : i = k
    · subst hik
      simp
    · have hne : ofNat k ≠ .ofNat i := fun heq => hik (ofNat_inj (by omega) (by omega) heq).symm
      rw [if_neg hne, if_neg hik]
  · rw [getElem?_eq_none (by rw [length_partialCalls h]; exact hk),
      getElem?_eq_none (by rw [length_partialCalls (by rw [length_modify]; exact h)]; exact hk)]
    rfl

end Calls

/-! ## The aggregator and the codec -/

/-- The size of the text of a delta. -/
def deltaBytes : CanonicalEvent → Nat
  | .outputTextDelta _ delta => delta.utf8ByteSize
  | .reasoningDelta _ delta => delta.utf8ByteSize
  | .toolCallDelta _ _ _ delta => delta.utf8ByteSize
  | _ => 0

/-- What the aggregator keeps of a response and the codec does not. -/
structure Payload where
  text : String
  arguments : List String
  aggregateBytes : Nat
  failed : Option Value

/-- The aggregator that has checked what the codec has checked. -/
def gathered (c : ChatCodec) (g : Payload) : ChatResponseAggregator :=
  { c, g with }

/-- A client has read what the aggregator has gathered. -/
structure Follows (c : ChatCodec) (g : Payload) (m : PartialMessage) : Prop where
  length : g.arguments.length = c.outputs.tools.length
  role : c.responseId.isSome = true → m.role = some "assistant"
  content : m.content = g.text
  calls : m.calls = partialCalls c.outputs.tools g.arguments
  room : c.outputs.tools.length ≤ c.limits.maxOutputItems

theorem Follows.keep {c d : ChatCodec} {g : Payload} {m : PartialMessage} (h : Follows c g m)
    (htools : d.outputs.tools = c.outputs.tools) (hid : d.responseId = c.responseId)
    (hlimits : d.limits = c.limits) :
    Follows d g m where
  length := by rw [htools]; exact h.length
  role := by rw [hid]; exact h.role
  content := h.content
  calls := by rw [htools]; exact h.calls
  room := by rw [htools, hlimits]; exact h.room

section Steps

variable {c d : ChatCodec} {g : Payload} {m : PartialMessage} {e : CanonicalEvent}
  {out : List Value} {b : ChatResponseAggregator}

theorem transition_gathered : (gathered c g).transition e = .ok b ↔ c.terminal = false ∧
    (c.contextValidated = true ∨ c.limits.validateContext c.context = .ok ()) ∧
    (gathered c.validated g).handle e = .ok b := by
  simp only [transition, do_ok, checks_ok, Bool.not_eq_true']
  refine and_congr_right fun _ => ?_
  unfold validateContextOnce
  cases hvalid : c.contextValidated with
  | true =>
    have hsame : gathered c g = gathered c.validated g := by
      rw [gathered, gathered, hvalid]
    rw [if_pos (show (gathered c g).contextValidated = true from hvalid)]
    simp [hsame]
  | false =>
    rw [if_neg (show ¬ (gathered c g).contextValidated = true by
      show ¬ c.contextValidated = true
      simp [hvalid])]
    simp only [do_ok, Bool.false_eq_true, false_or]
    constructor
    · rintro ⟨_, ⟨hcontext, rfl⟩, hhandle⟩
      exact ⟨hcontext, hhandle⟩
    · rintro ⟨hcontext, hhandle⟩
      exact ⟨_, ⟨hcontext, rfl⟩, hhandle⟩

theorem ensurePayloadCapacity_eq_ok {additional : Nat} {u : Unit}
    (hword : c.limits.maxAggregateBytes ≤ u64Max) :
    (gathered c g).ensurePayloadCapacity additional = .ok u ↔
      g.aggregateBytes + additional ≤ c.limits.maxAggregateBytes := by
  rw [ensurePayloadCapacity, requireThat_eq_ok, Option.any_eq_true]
  simp only [checkedAdd_eq_some, decide_eq_true_eq]
  constructor
  · rintro ⟨total, ⟨-, rfl⟩, hfits⟩
    exact hfits
  · intro hfits
    exact ⟨_, ⟨Nat.le_trans hfits hword, rfl⟩, hfits⟩

theorem gathered_requireDeltaAllowed {u : Unit} :
    (gathered c g).requireDeltaAllowed = .ok u ↔ c.responseId.isSome = true ∧ c.usage = none := by
  simp only [requireDeltaAllowed, requireCreated, do_ok, checks_ok, Option.isNone_iff_eq_none]
  rfl

/-- **The aggregator is no laxer than the codec**, and refuses what does not fit. -/
theorem handle_of_gathered (hword : c.limits.maxAggregateBytes ≤ u64Max)
    (hn : g.aggregateBytes ≤ c.limits.maxAggregateBytes) (h : (gathered c g).handle e = .ok b) :
    g.aggregateBytes + deltaBytes e ≤ c.limits.maxAggregateBytes ∧ ∃ out d,
    ChatCodec.handle e c = .ok out d := by
  cases e with
  | created responseId =>
    simp only [handle, created, do_ok, checks_ok, Option.isNone_iff_eq_none] at h
    exact ⟨hn, _, _, ChatCodec.created_eq_ok.mpr ⟨h.1, h.2.1, rfl, rfl⟩⟩
  | outputTextDelta itemId delta =>
    simp only [handle, textDelta, do_ok, gathered_requireDeltaAllowed,
      ensurePayloadCapacity_eq_ok hword] at h
    obtain ⟨⟨hcreated, husage⟩, hfits, outputs, hregister, -⟩ := h
    exact ⟨hfits, _, _, ChatCodec.textDelta_eq_ok.mpr ⟨hcreated, husage, outputs, hregister,
      rfl, rfl⟩⟩
  | reasoningDelta itemId delta => cases h
  | toolCallDelta itemId callId name delta =>
    simp only [handle, toolDelta, do_ok, gathered_requireDeltaAllowed,
      ensurePayloadCapacity_eq_ok hword, Prod.exists] at h
    obtain ⟨⟨hcreated, husage⟩, hfits, outputs, i, isNew, hregister, -⟩ := h
    exact ⟨hfits, _, _, ChatCodec.toolDelta_eq_ok.mpr ⟨hcreated, husage, outputs, i, isNew,
      hregister, rfl, rfl⟩⟩
  | usage usage =>
    simp only [handle, takeUsage, requireCreated, do_ok, checks_ok, Option.isNone_iff_eq_none] at h
    obtain ⟨hcreated, husage, value, hvalue, -⟩ := h
    exact ⟨hn, _, _, ChatCodec.takeUsage_eq_ok.mpr ⟨hcreated, husage, value, hvalue, rfl, rfl⟩⟩
  | completed =>
    simp only [handle, completed, requireCreated, do_ok, checks_ok] at h
    obtain ⟨usage, husage⟩ := Option.isSome_iff_exists.mp h.2.1
    exact ⟨hn, _, _, completed_eq_ok.mpr ⟨h.1, usage, husage, rfl, rfl⟩⟩
  | failed error => exact ⟨hn, _, _, failed_eq_ok.mpr ⟨rfl, rfl⟩⟩

/-- A response that can be written out: it has an id and its tokens are counted. -/
def ChatCodec.Counted (c : ChatCodec) : Prop :=
  c.responseId.isSome = true ∧ c.usage.isSome = true

/-- What the aggregator does with an event the codec takes. -/
structure Gathers (c : ChatCodec) (g : Payload) (m : PartialMessage) (e : CanonicalEvent)
    (out : List Value) (d : ChatCodec) (g' : Payload) : Prop where
  handle : (gathered c g).handle e = .ok (gathered d g')
  bytes : g'.aggregateBytes = g.aggregateBytes + deltaBytes e
  follows : Follows d g' (out.foldl readChunk m)
  limits : d.limits = c.limits
  fails : g'.failed = g.failed ∨ ∃ error, e = .failed error ∧
    g'.failed = some (chatErrorEnvelope error)
  ended : c.terminal = false → d.terminal = true → g'.failed.isSome = true ∨ d.Counted

/-- The aggregator has room for a call the codec has registered, and the client finds it. -/
theorem exists_makeRoom_of_registerTool {itemId callId name : String} {outputs : OutputRegistry}
    {i : Nat} {isNew : Bool} (hfollows : Follows c g m)
    (h : c.outputs.registerTool itemId callId name c.limits = .ok (outputs, i, isNew)) :
    ∃ arguments', (gathered c g).makeRoom isNew = .ok arguments' ∧
      ∀ delta, c.limits.maxOutputItems < 2 ^ 64 →
        (arguments'.modify i (· ++ delta)).length = outputs.tools.length ∧
        addCallDelta m.calls (toolCallDelta i isNew callId name delta).norm =
          partialCalls outputs.tools (arguments'.modify i (· ++ delta)) ∧
        outputs.tools.length ≤ c.limits.maxOutputItems := by
  have hlength := hfollows.length
  have hroom := hfollows.room
  obtain ⟨hregisters, hnew⟩ := registers_of_registerTool h
  rw [hfollows.calls]
  generalize outputs.tools = tools at hregisters ⊢
  cases hregisters with
  | known hknown =>
    obtain ⟨hi, -⟩ := List.getElem?_eq_some_iff.mp hknown
    refine ⟨g.arguments, rfl, ?_⟩
    intro delta hword
    refine ⟨by rw [List.length_modify]; exact hlength, ?_, hroom⟩
    exact addCallDelta_known hlength (by omega) hi
  | new =>
    have hlt := hnew rfl
    refine ⟨g.arguments ++ [""], ?_, ?_⟩
    · simp only [makeRoom, if_true, do_ok, checks_ok, Bool.not_eq_true', decide_eq_false_iff_not,
        ge_iff_le, Nat.not_le]
      refine ⟨?_, rfl⟩
      show g.arguments.length < c.limits.maxOutputItems
      rw [hlength]
      exact hlt
    · intro delta hword
      have hmodify : (g.arguments ++ [""]).modify c.outputs.tools.length (· ++ delta) =
          g.arguments ++ [delta] := by
        rw [← hlength, modify_length]
        rfl
      rw [hmodify]
      refine ⟨by simp [hlength], addCallDelta_new hlength (by omega), ?_⟩
      rw [List.length_append, List.length_singleton]
      exact hlt

/-- **The aggregator takes what the codec takes**, as long as it fits, and a client of the codec
    reads what the aggregator gathers. -/
theorem gathers_of_handle (hfollows : Follows c g m) (hitems : c.limits.maxOutputItems ≤ u64Max)
    (hword : c.limits.maxAggregateBytes ≤ u64Max)
    (hfits : g.aggregateBytes + deltaBytes e ≤ c.limits.maxAggregateBytes)
    (h : ChatCodec.handle e c = .ok out d) :
    ∃ g', Gathers c g m e out d g' := by
  have hmax : u64Max < 2 ^ 64 := by decide
  have hends : ∀ {P : Prop}, c.terminal = false → c.terminal = true → P :=
    fun hopen hterminal => nomatch hopen.symm.trans hterminal
  cases e with
  | created responseId =>
    obtain ⟨hnone, hid, rfl, rfl⟩ := ChatCodec.created_eq_ok.mp h
    refine ⟨g, ?_, rfl, ?_, rfl, .inl rfl, hends⟩
    · simp only [handle, created, do_ok, checks_ok, Option.isNone_iff_eq_none]
      exact ⟨hnone, hid, rfl⟩
    · rw [foldl_cons, foldl_nil, readChunk_choice, add_role]
      exact ⟨hfollows.length, fun _ => rfl, hfollows.content, hfollows.calls, hfollows.room⟩
  | outputTextDelta itemId delta =>
    obtain ⟨hcreated, husage, outputs, hregister, rfl, rfl⟩ := ChatCodec.textDelta_eq_ok.mp h
    refine ⟨{ g with
        text := g.text ++ delta, aggregateBytes := g.aggregateBytes + delta.utf8ByteSize },
      ?_, rfl, ?_, rfl, .inl rfl, hends⟩
    · simp only [handle, textDelta, do_ok, gathered_requireDeltaAllowed,
        ensurePayloadCapacity_eq_ok hword]
      exact ⟨⟨hcreated, husage⟩, hfits, outputs, hregister, rfl⟩
    · have hkept : Follows { c with outputs } g m :=
        hfollows.keep (tools_registerText hregister) rfl rfl
      rw [foldl_cons, foldl_nil, readChunk_choice, add_content]
      exact { hkept with content := congrArg (· ++ delta) hfollows.content }
  | reasoningDelta itemId delta => cases h
  | toolCallDelta itemId callId name delta =>
    obtain ⟨hcreated, husage, outputs, i, isNew, hregister, rfl, rfl⟩ :=
      ChatCodec.toolDelta_eq_ok.mp h
    obtain ⟨arguments', hroom, hmodify⟩ := exists_makeRoom_of_registerTool hfollows hregister
    refine ⟨{ g with arguments := arguments'.modify i (· ++ delta),
                     aggregateBytes := g.aggregateBytes + delta.utf8ByteSize }, ?_, rfl, ?_, rfl,
                       .inl rfl, hends⟩
    · simp only [handle, toolDelta, do_ok, gathered_requireDeltaAllowed,
        ensurePayloadCapacity_eq_ok hword, Prod.exists]
      exact ⟨⟨hcreated, husage⟩, hfits, outputs, i, isNew, hregister, arguments', hroom, rfl⟩
    · obtain ⟨hlength, hcalls, hitems'⟩ := hmodify delta (Nat.lt_of_le_of_lt hitems hmax)
      rw [foldl_cons, foldl_nil, readChunk_choice, add_toolCalls]
      exact ⟨hlength, fun _ => hfollows.role hcreated, hfollows.content, hcalls, hitems'⟩
  | usage usage =>
    obtain ⟨hcreated, husage, value, hvalue, rfl, rfl⟩ := ChatCodec.takeUsage_eq_ok.mp h
    refine ⟨g, ?_, rfl, hfollows.keep rfl rfl rfl, rfl, .inl rfl, ?_⟩
    · simp only [handle, takeUsage, requireCreated, do_ok, checks_ok, Option.isNone_iff_eq_none]
      exact ⟨hcreated, husage, value, hvalue, rfl⟩
    · exact fun _ _ => .inr ⟨hcreated, rfl⟩
  | completed =>
    obtain ⟨hcreated, usage, husage, rfl, rfl⟩ := completed_eq_ok.mp h
    refine ⟨g, ?_, rfl, ?_, rfl, .inl rfl, ?_⟩
    · simp only [handle, completed, requireCreated, do_ok, checks_ok]
      exact ⟨hcreated, Option.isSome_iff_exists.mpr ⟨usage, husage⟩, rfl⟩
    · have hquiet : (c.chunk [c.choice (.obj []) (.str c.context.response.finishReason.asStr)] .null
          :: if c.context.response.includeUsage then [c.chunk [] usage.tree] else []).foldl
          readChunk m = m := by
        rw [foldl_cons, readChunk_choice, add_nothing]
        split
        · rw [foldl_cons, readChunk_usage, foldl_nil]
        · rfl
      rw [hquiet]
      exact hfollows.keep rfl rfl rfl
    · exact fun _ _ => .inr ⟨hcreated, Option.isSome_iff_exists.mpr ⟨usage, husage⟩⟩
  | failed error =>
    obtain ⟨rfl, rfl⟩ := failed_eq_ok.mp h
    refine ⟨{ g with failed := some (chatErrorEnvelope error) }, rfl, rfl, ?_, rfl,
      .inr ⟨error, rfl, rfl⟩, ?_⟩
    · rw [foldl_cons, foldl_nil, readChunk_errorEnvelope]
      exact { hfollows with }
    · exact fun _ _ => .inl rfl

end Steps

/-! ## Runs -/

section Runs

variable {c d : ChatCodec} {g : Payload} {m : PartialMessage} {events : Events}
    {values : List Value}

/-- What the aggregator has gathered after a list of events. -/
structure GathersAll (c : ChatCodec) (g : Payload) (m : PartialMessage) (events : Events)
    (values : List Value) (d : ChatCodec) (g' : Payload) : Prop where
  run : events.foldlM transition (gathered c g) = .ok (gathered d g')
  follows : Follows d g' (values.foldl readChunk m)
  fails : g'.failed = g.failed ∨ ∃ error, .failed error ∈ events ∧
    g'.failed = some (chatErrorEnvelope error)
  ended : (c.terminal = true → g.failed.isSome = true ∨ c.Counted) →
    d.terminal = true → g'.failed.isSome = true ∨ d.Counted

/-- **A stream within the bound is gathered.** -/
theorem gathersAll_of_runAll (hfollows : Follows c g m) (hitems : c.limits.maxOutputItems ≤ u64Max)
    (hword : c.limits.maxAggregateBytes ≤ u64Max)
    (hfits : g.aggregateBytes + (events.map deltaBytes).sum ≤ c.limits.maxAggregateBytes)
    (h : Call.runAll ChatCodec.transition c events = .ok (d, values)) :
    ∃ g', GathersAll c g m events values d g' := by
  induction events generalizing c g m values with
  | nil =>
    cases h
    exact ⟨g, rfl, hfollows, .inl rfl, fun h => h⟩
  | cons e events ih =>
    obtain ⟨u, o, p, hstep, hrest, rfl⟩ := feed_cons_eq_ok.mp h
    obtain ⟨hopen, hcontext, hhandle⟩ := transition_eq_ok.mp (Call.outcome_eq_ok.mp hstep)
    rw [map_cons, sum_cons] at hfits
    have hfirst : g.aggregateBytes + deltaBytes e ≤ c.limits.maxAggregateBytes := by omega
    obtain ⟨g₁, hgathers⟩ := gathers_of_handle (c := c.validated)
      (hfollows.keep rfl rfl rfl) hitems hword hfirst hhandle
    have hlimits : u.limits = c.limits := hgathers.limits
    obtain ⟨g', hall⟩ := ih hgathers.follows (by rw [hlimits]; exact hitems)
      (by rw [hlimits]; exact hword)
      (by rw [hlimits, hgathers.bytes, Nat.add_assoc]; exact hfits) hrest
    refine ⟨g', ?_, ?_, ?_, ?_⟩
    · rw [foldlM_cons, do_eq_ok]
      exact ⟨_, transition_gathered.mpr ⟨hopen, hcontext, hgathers.handle⟩, hall.run⟩
    · rw [foldl_append]
      exact hall.follows
    · rcases hall.fails with hsame | ⟨error, hmem, hfailed⟩
      · rcases hgathers.fails with hsame' | ⟨error, rfl, hfailed⟩
        · exact .inl (hsame.trans hsame')
        · exact .inr ⟨error, by simp, hsame.trans hfailed⟩
      · exact .inr ⟨error, by simp [hmem], hfailed⟩
    · intro _ hterminal
      exact hall.ended (hgathers.ended hopen) hterminal

/-- **What is gathered could be streamed**, and was within the bound. -/
theorem runAll_of_gathered {a : ChatResponseAggregator} (hfollows : Follows c g m)
    (hitems : c.limits.maxOutputItems ≤ u64Max) (hword : c.limits.maxAggregateBytes ≤ u64Max)
    (hn : g.aggregateBytes ≤ c.limits.maxAggregateBytes)
    (h : events.foldlM transition (gathered c g) = .ok a) :
    ∃ d values, Call.runAll ChatCodec.transition c events = .ok (d, values) ∧
      g.aggregateBytes + (events.map deltaBytes).sum ≤ c.limits.maxAggregateBytes := by
  induction events generalizing c g m with
  | nil => exact ⟨c, [], rfl, hn⟩
  | cons e events ih =>
    rw [foldlM_cons, do_eq_ok] at h
    obtain ⟨a₁, hstep, hrest⟩ := h
    obtain ⟨hopen, hcontext, hhandle⟩ := transition_gathered.mp hstep
    obtain ⟨hfits, o, u, hcodec⟩ := handle_of_gathered (c := c.validated) hword hn hhandle
    obtain ⟨g₁, hgathers⟩ := gathers_of_handle (c := c.validated)
      (hfollows.keep rfl rfl rfl) hitems hword hfits hcodec
    have hlimits : u.limits = c.limits := hgathers.limits
    cases hhandle.symm.trans hgathers.handle
    obtain ⟨d, values, hrun, hbound⟩ := ih hgathers.follows (by rw [hlimits]; exact hitems)
      (by rw [hlimits]; exact hword) (by rw [hlimits, hgathers.bytes]; exact hfits) hrest
    have hfirst := transition_eq_ok.mpr ⟨hopen, hcontext, hcodec⟩
    refine ⟨d, _, feed_cons_eq_ok.mpr ⟨u, o, values, Call.outcome_eq_ok.mpr hfirst, hrun, rfl⟩, ?_⟩
    rw [map_cons, sum_cons, ← Nat.add_assoc, ← hgathers.bytes, ← hlimits]
    exact hbound

/-- A codec that has sent an end has ended. -/
theorem terminal_of_mem (h : Call.runAll ChatCodec.transition c events = .ok (d, values))
    (hend : .completed ∈ events ∨ ∃ error, .failed error ∈ events) : d.terminal = true := by
  induction events generalizing c values with
  | nil => simp at hend
  | cons e events ih =>
    obtain ⟨u, o, p, hstep, hrest, rfl⟩ := feed_cons_eq_ok.mp h
    cases hu : u.terminal with
    | true =>
      -- nothing comes after the end
      cases events with
      | nil =>
        cases hrest
        exact hu
      | cons e' events =>
        obtain ⟨u', o', p', hstep', -, -⟩ := feed_cons_eq_ok.mp hrest
        have hopen := (transition_eq_ok.mp (Call.outcome_eq_ok.mp hstep')).1
        rw [hu] at hopen
        cases hopen
    | false =>
      refine ih hrest ?_
      rcases hend with hmem | ⟨error, hmem⟩
      · rcases mem_cons.mp hmem with rfl | hmem
        · obtain ⟨-, -, hhandle⟩ := transition_eq_ok.mp (Call.outcome_eq_ok.mp hstep)
          obtain ⟨-, -, -, -, rfl⟩ := completed_eq_ok.mp hhandle
          cases hu
        · exact .inl hmem
      · rcases mem_cons.mp hmem with rfl | hmem
        · obtain ⟨-, -, hhandle⟩ := transition_eq_ok.mp (Call.outcome_eq_ok.mp hstep)
          obtain ⟨-, rfl⟩ := failed_eq_ok.mp hhandle
          cases hu
        · exact .inr ⟨error, hmem⟩

/-- A list with `Completed` in it that the codec takes has no failure in it. -/
theorem failed_notMem_of_completed {context : ChatEncodeContext} {limits : ChatLimits}
    (h : Call.runAll ChatCodec.transition (ChatCodec.withLimits context limits) events =
    .ok (d, values)) (hcompleted : .completed ∈ events) (error : GatewayError) :
    .failed error ∉ events := by
  have hordered : Ordered (Call.stepOfCall ChatCodec.transition) (fun c => c.flags.phase) fun c =>
      c.flags.Sound :=
    .of_flags fun hstep => ChatCodec.flags_transition (Call.outcome_eq_ok.mp hstep)
  have hshaped : shaped events = true := by
    refine hordered.shaped ?_ ?_ h hcompleted
    · exact fun hcounted => hcounted
    · rfl
  obtain ⟨id, deltas, usage, hdeltas, rfl⟩ := shaped_iff.mp hshaped
  intro hmem
  simp only [mem_cons, mem_append, reduceCtorEq, false_or, not_mem_nil, or_false] at hmem
  cases hdeltas _ hmem

/-- What a client has read is the message of the aggregator. -/
theorem message_gathered (hfollows : Follows c g m) (hcreated : c.responseId.isSome = true) :
    (gathered c g).message = m.message := by
  have hempty : m.calls.isEmpty = c.outputs.tools.isEmpty := by
    rw [hfollows.calls, Bool.eq_iff_iff, isEmpty_iff_length_eq_zero, isEmpty_iff_length_eq_zero,
      length_partialCalls hfollows.length]
  rw [PartialMessage.message, hfollows.role hcreated, hfollows.content, hempty, hfollows.calls,
    partialCalls, map_map]
  have hcalls : (c.outputs.tools.zip g.arguments).map toolCall =
      (c.outputs.tools.zip g.arguments).zipIdx.map fun entry => toolCall entry.1 := by
    rw [show (fun entry : (ChatToolIdentity × String) × Nat => toolCall entry.1) =
      toolCall ∘ Prod.fst from rfl, ← map_map, zipIdx_map_fst]
  show obj (_ ++ if c.outputs.tools.isEmpty then [] else [("tool_calls",
    .arr ((c.outputs.tools.zip g.arguments).map toolCall))]) = _
  rw [hcalls]
  rfl

theorem choiceMessage_responseValue (a : ChatResponseAggregator) (usage : Value) :
    choiceMessage (a.responseValue usage) = some a.message.norm := by
  have hfree : ∀ entry : String × Value, (!ChatCodec.reservedKeys.contains entry.1) = true →
      entry.1 ∉ ["id", "object", "created", "model", "choices", "usage"] := by
    intro entry hentry
    simpa [ChatCodec.reservedKeys] using hentry
  have hchoices : (a.responseValue usage).tree.get? "choices" = some (arr [.obj
      [("index", .ofWord a.context.response.choiceIndex), ("message", a.message),
        ("logprobs", optionJson Value.tree a.context.response.logprobs),
        ("finish_reason", .str a.context.response.finishReason.asStr)]]).norm :=
    get?_norm_obj "choices" (nodup_append_entries (by simp) _ (by exact hfree))
  have hmessage : (obj [("index", .ofWord a.context.response.choiceIndex), ("message", a.message),
      ("logprobs", optionJson Value.tree a.context.response.logprobs),
      ("finish_reason", .str a.context.response.finishReason.asStr)]).norm.get? "message" =
        some a.message.norm :=
    get?_norm_obj "message"
  rw [choiceMessage, firstChoice, hchoices, norm_arr]
  exact hmessage

section Messages

variable {context : ChatEncodeContext} {limits : ChatLimits}

theorem follows_start (context : ChatEncodeContext) (limits : ChatLimits) :
    Follows (.withLimits context limits) ⟨"", [], 0, none⟩ .empty where
  length := rfl
  role := by
    intro h
    cases h
  content := rfl
  calls := rfl
  room := Nat.zero_le _

theorem choiceMessage_errorEnvelope (error : GatewayError) :
    choiceMessage (chatErrorEnvelope error) = none := by
  rfl

/-- What `encode_response` returns for a list the codec takes to its end. -/
theorem encode_of_gathersAll
    (h : GathersAll (.withLimits context limits) ⟨"", [], 0, none⟩ .empty events values c g)
    (hterminal : c.terminal = true) :
    ∃ value, (withLimits context limits).encode events = .ok value ∧
      ((∃ error, .failed error ∈ events ∧ value = chatErrorEnvelope error) ∨
        choiceMessage value = some (values.foldl readChunk .empty).message.norm) := by
  have hrun : events.foldlM transition (withLimits context limits) = _ := h.run
  obtain ⟨text, arguments, n, failed⟩ := g
  have hfails : failed = none ∨ ∃ error, .failed error ∈ events ∧
    failed = some (chatErrorEnvelope error) := h.fails
  rcases hfails with rfl | ⟨error, hmem, rfl⟩
  · rcases h.ended (fun hopen => by cases hopen) hterminal with hnone | ⟨hcreated, husage⟩
    · cases hnone
    · obtain ⟨usage, husage⟩ := Option.isSome_iff_exists.mp husage
      refine ⟨_, do_eq_ok.mpr ⟨_, hrun, do_eq_ok.mpr ⟨(), requireThat_eq_ok.mpr hterminal,
        do_eq_ok.mpr ⟨usage, orInvalid_eq_ok.mpr husage, rfl⟩⟩⟩, .inr ?_⟩
      rw [choiceMessage_responseValue, message_gathered h.follows hcreated]
  · exact ⟨_, do_eq_ok.mpr ⟨_, hrun, do_eq_ok.mpr ⟨(), requireThat_eq_ok.mpr hterminal, rfl⟩⟩,
      .inl ⟨error, hmem, rfl⟩⟩

/-- **Streamed and whole Chat responses.** A list that `encode_response` takes is taken event by
    event by the streaming codec, and a client of the stream puts together the message of the
    response. And a list that the streaming codec takes to its end is taken by `encode_response` if
    its deltas fit. -/
theorem encodeResponse_chunks (hitems : limits.maxOutputItems ≤ u64Max)
    (hword : limits.maxAggregateBytes ≤ u64Max) (events : List CanonicalEvent) :
    (∀ value, (ChatResponseAggregator.withLimits context limits).encode events = .ok value →
      ∃ (c : ChatCodec) (chunks : List Value),
        Call.runAll ChatCodec.encodeChunk (.withLimits context limits) events =
          .ok (c, chunks.flatMap (fun chunk => encodeSse none chunk) ++ ChatCodec.doneMarker) ∧
        (∀ message, choiceMessage value = some message →
          message = (chunks.foldl readChunk .empty).message.norm) ∧
        (.completed ∈ events → (choiceMessage value).isSome = true)) ∧
    ∀ c bytes,
      Call.runAll ChatCodec.encodeChunk (.withLimits context limits) events = .ok (c, bytes) →
      (.completed ∈ events ∨ ∃ error, .failed error ∈ events) →
      (events.map deltaBytes).sum ≤ limits.maxAggregateBytes →
      ∃ value, (ChatResponseAggregator.withLimits context limits).encode events = .ok value := by
  have hstart := follows_start context limits
  constructor
  · intro value hvalue
    obtain ⟨a, hrun, hrest⟩ := do_eq_ok.mp hvalue
    obtain ⟨c, values, hstream, hbound⟩ := runAll_of_gathered hstart hitems hword
      (Nat.zero_le _) hrun
    obtain ⟨g, hall⟩ := gathersAll_of_runAll hstart hitems hword hbound hstream
    -- the aggregator ends where the codec ends
    have hterminal : c.terminal = true := by
      have hsame := hrun.symm.trans hall.run
      cases hsame
      obtain ⟨_, hterminal, -⟩ := do_eq_ok.mp hrest
      exact requireThat_eq_ok.mp hterminal
    obtain ⟨value', hvalue', hmessage⟩ := encode_of_gathersAll hall hterminal
    cases hvalue.symm.trans hvalue'
    obtain ⟨bytes, hbytes⟩ := exists_runAll_encodeChunk hstream
    obtain ⟨chunks, hchunks, rfl⟩ := runAll_encodeChunk rfl hbytes
    cases hchunks.symm.trans hstream
    rw [hterminal, if_pos rfl] at hbytes
    refine ⟨c, values, hbytes, ?_, ?_⟩
    · intro message hread
      rcases hmessage with ⟨error, -, rfl⟩ | hmessage
      · rw [choiceMessage_errorEnvelope] at hread
        cases hread
      · exact Option.some.inj (hread.symm.trans hmessage)
    · intro hcompleted
      rcases hmessage with ⟨error, hmem, -⟩ | hmessage
      · exact absurd hmem (failed_notMem_of_completed hstream hcompleted error)
      · rw [hmessage]
        rfl
  · intro c bytes hstream hend hbound
    obtain ⟨values, hvalues, -⟩ := runAll_encodeChunk rfl hstream
    obtain ⟨g, hall⟩ := gathersAll_of_runAll hstart hitems hword
      ((Nat.zero_add _).trans_le hbound) hvalues
    obtain ⟨value, hvalue, -⟩ := encode_of_gathersAll hall (terminal_of_mem hvalues hend)
    exact ⟨value, hvalue⟩

/-- A text and a call, each in two parts, with the usage in a chunk of its own. -/
theorem encodeResponse_chunks_twoParts :
    let events := [.created "r", .outputTextDelta "i" "x", .toolCallDelta "j" "c" "n" "y",
      .outputTextDelta "i" "z", .toolCallDelta "j" "c" "n" "w", .usage ⟨1, 1, none, none, .empty⟩,
      .completed]
    ∃ value c bytes, (withLimits (chatContext true) .default).encode events = .ok value ∧
      Call.runAll ChatCodec.encodeChunk (.withLimits (chatContext true) .default) events =
      .ok (c, bytes) ∧ (choiceMessage value).isSome = true := by
  intro events
  obtain ⟨value, hvalue⟩ :=
    exists_of_isOk (x := (withLimits (chatContext true) .default).encode events) (by decide +kernel)
  obtain ⟨c, chunks, hrun, -, hmessage⟩ := (encodeResponse_chunks (by decide) (by decide) events).1
    value hvalue
  exact ⟨value, c, _, hvalue, hrun, hmessage (by simp [events])⟩

end Messages

end Runs

end Wokcore.Protocols.Outbound
