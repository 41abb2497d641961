import Wokcore.Protocols.Outbound.ResponsesItems

/-!
# What a Responses stream tells its client

All that a client learns from a stream it reads off the events: their numbers, which items were
added under which index, the deltas, and at the end the texts once more. `Told` says how that agrees
with the output items the codec keeps. Every call preserves it, also one that fails, so it holds
after any calls whatever.

A new item is announced before its first delta, so between the two it stands in the output without a
text (`blank`); the announcement and the delta are then two small steps.
-/

set_option autoImplicit false

namespace Wokcore.Protocols.Outbound

open Lib Protocols.Stream ResponsesCodec ResponsesOutput Call Json List

open Upstream (stringAt)

variable {item : ResponsesOutput}

/-! ## A client of the stream -/

/-- A delta as it is sent. -/
structure SentDelta where
  index : Json
  itemId : String
  text : String

def deltaKinds : List String :=
  ["response.output_text.delta", "response.reasoning_summary_text.delta",
    "response.function_call_arguments.delta"]

def addedKind : String := "response.output_item.added"

/-- The delta an event carries. -/
def sentDelta (event : WireEvent) : Option SentDelta :=
  if event.1 ∈ deltaKinds then do
    let index ← event.2.tree.get? "output_index"
    let itemId ← stringAt event.2.tree "item_id"
    let text ← stringAt event.2.tree "delta"
    return ⟨index, itemId, text⟩
  else none

/-- The index and the identifier of the item an event adds. -/
def addedItem (event : WireEvent) : Option (Json × String) :=
  if event.1 = addedKind then do
    let index ← event.2.tree.get? "output_index"
    let item ← event.2.tree.get? "item"
    let itemId ← stringAt item "id"
    return (index, itemId)
  else none

/-- The text of the first part of an item. -/
def firstPart (item : Json) (key : String) : Option String := do
  let parts ← item.get? key
  let parts ← parts.asArray
  let part ← parts.head?
  stringAt part "text"

/-- The text, the summary or the arguments of an item. -/
def itemText (item : Json) : Option String :=
  match stringAt item "type" with
  | some "message" => firstPart item "content"
  | some "reasoning" => firstPart item "summary"
  | some "function_call" => stringAt item "arguments"
  | _ => none

/-- The text an event repeats that ends something. -/
def repeatedText (event : WireEvent) : Option String :=
  match event.1 with
  | "response.output_text.done" | "response.reasoning_summary_text.done" =>
    stringAt event.2.tree "text"
  | "response.content_part.done" | "response.reasoning_summary_part.done" =>
    (event.2.tree.get? "part").bind fun part => stringAt part "text"
  | "response.function_call_arguments.done" => stringAt event.2.tree "arguments"
  | "response.output_item.done" => (event.2.tree.get? "item").bind itemText
  | _ => none

/-- The index an event ends something of, and the text it repeats. -/
def doneText (event : WireEvent) : Option (Json × String) := do
  let index ← event.2.tree.get? "output_index"
  let text ← repeatedText event
  return (index, text)

/-- The output of the response an event carries. -/
def responseOutput (event : WireEvent) : Option (List Json) := do
  let response ← event.2.tree.get? "response"
  let output ← response.get? "output"
  output.asArray

/-- All that was sent for an index, in order. -/
def textAt (events : List WireEvent) (index : Json) : String :=
  String.join (((events.filterMap sentDelta).filter fun delta => delta.index = index).map
    SentDelta.text)

/-- The events are numbered from one, without a gap and without a repetition. -/
def InSequence (events : List WireEvent) : Prop :=
  ∀ (k : Nat) (event : WireEvent), events[k]? = some event → event.2.tree.get? "sequence_number" =
    some (.ofNat (k + 1))

/-- A delta comes after the event that has added its item under its index. -/
def Announced (events : List WireEvent) : Prop :=
  ∀ (k : Nat) (event : WireEvent) (delta : SentDelta), events[k]? = some event →
    sentDelta event = some delta → (delta.index, delta.itemId) ∈ (events.take k).filterMap addedItem

/-! ### Reading events -/

section Reading

variable {number : Nat} {ev : Unnumbered} {itemId : String}

/-- The members of an event are not called like its name or its number. -/
def Plain (ev : Unnumbered) : Prop := ∀ number, ((wireFields number ev).map Prod.fst).Nodup

/-- An event that neither adds an item nor carries a delta. -/
structure Other (ev : Unnumbered) : Prop where
  plain : Plain ev
  noDelta : ev.1 ∉ deltaKinds
  noItem : ev.1 ≠ addedKind

/-- For most events it is seen at once. -/
theorem Other.intro (plain : Plain ev := by exact fun _ => by simp [wireFields])
    (noDelta : ev.1 ∉ deltaKinds := by simp [deltaKinds])
    (noItem : ev.1 ≠ addedKind := by simp [addedKind]) :
    Other ev := ⟨plain, noDelta, noItem⟩

theorem stringAt_wireEvent (h : Plain ev) {key text : String}
    (hkey : (wireFields number ev).lookup key = some (.str text)) :
    stringAt (wireEvent number ev).2.tree key = some text := by
  rw [stringAt, get?_wireEvent (h number), hkey]
  rfl

theorem get?_index (h : Plain ev) {i : Nat} (hkey : (wireFields number ev).lookup "output_index" =
    some (.ofNat i)) :
    (wireEvent number ev).2.tree.get? "output_index" = some (.ofNat i) := by
  rw [get?_wireEvent (h number), hkey]
  rfl

theorem get?_sequenceNumber (h : Plain ev) :
    (wireEvent number ev).2.tree.get? "sequence_number" = some (.ofNat number) := by
  have hnd := h number
  rw [wireFields, map_append, nodup_append] at hnd
  have hother : (([("type", .str ev.1)] : Members) ++ ev.2).lookup "sequence_number" = none := by
    rw [lookup_eq_none_iff]
    intro m hm
    have hne := hnd.2.2 m.1 (mem_map_of_mem hm) "sequence_number" (by simp)
    simpa using Ne.symm hne
  rw [get?_wireEvent (h number), wireFields, lookup_append, hother]
  rfl

theorem sentDelta_eq_some (h : Plain ev) {i : Nat} {text : String} (hkind : ev.1 ∈ deltaKinds)
    (hindex : (wireFields number ev).lookup "output_index" = some (.ofNat i))
    (hid : (wireFields number ev).lookup "item_id" = some (.str itemId))
    (htext : (wireFields number ev).lookup "delta" = some (.str text)) :
    sentDelta (wireEvent number ev) = some ⟨.ofNat i, itemId, text⟩ := by
  have hkind' : (wireEvent number ev).1 ∈ deltaKinds := hkind
  rw [sentDelta, if_pos hkind', get?_index h hindex, stringAt_wireEvent h hid,
    stringAt_wireEvent h htext]
  rfl

theorem sentDelta_eq_none (hkind : ev.1 ∉ deltaKinds) : sentDelta (wireEvent number ev) = none :=
    if_neg hkind

theorem addedItem_eq_none (hkind : ev.1 ≠ addedKind) : addedItem (wireEvent number ev) = none :=
    if_neg hkind

theorem plain_deltaEvent (i : Nat) (item : ResponsesOutput) : Plain (deltaEvent i item) := by
  intro number
  cases item <;> simp [wireFields, deltaEvent]

theorem sentDelta_deltaEvent (number i : Nat) (item : ResponsesOutput) :
    sentDelta (wireEvent number (deltaEvent i item)) = some ⟨.ofNat i, item.itemId,
      item.payload⟩ := by
  have hplain := plain_deltaEvent i item
  cases item with
  | text itemId delta | reasoning itemId delta | tool itemId callId name delta =>
    exact sentDelta_eq_some hplain (by simp [deltaEvent, deltaKinds]) rfl rfl rfl

theorem addedItem_deltaEvent (i : Nat) (item : ResponsesOutput) :
    addedItem (wireEvent number (deltaEvent i item)) = none := by
  refine addedItem_eq_none ?_
  cases item <;> simp [deltaEvent, addedKind]

abbrev addedEvent (i : Nat) (item : Members) : Unnumbered :=
  (addedKind, [("output_index", .ofNat i), ("item", .obj item)])

theorem addedItem_added {item : Members} (i : Nat) (hid : item.lookup "id" = some (.str itemId))
    (hkeys : (item.map Prod.fst).Nodup) :
    Plain (addedEvent i item) ∧
      ∀ number, addedItem (wireEvent number (addedEvent i item)) =
        some (.ofNat i, itemId) := by
  have hplain : Plain (addedEvent i item) := by
    intro number
    simp [wireFields]
  refine ⟨hplain, ?_⟩
  intro number
  have hitem : (wireEvent number (addedEvent i item)).2.tree.get? "item" =
      some (obj item).norm := get?_wireEvent (hplain number) "item"
  have hitemId : stringAt (obj item).norm "id" = some itemId := by
    rw [stringAt, get?_norm_obj "id" hkeys, hid]
    rfl
  have hkind : (wireEvent number (addedEvent i item)).1 = addedKind := rfl
  rw [addedItem, if_pos hkind, get?_index hplain rfl, hitem]
  show (stringAt (obj item).norm "id").bind (fun itemId => some (ofNat i, itemId)) = _
  rw [hitemId]
  rfl

/-- The announcement of an item: it is added, perhaps with a first part. -/
theorem announcement_cases (i : Nat) (item : ResponsesOutput) : ∃ added parts,
    announcement i item = added :: parts ∧ added.1 = addedKind ∧
    (Plain added ∧ ∀ number, addedItem (wireEvent number added) = some (.ofNat i, item.itemId)) ∧
    ∀ part ∈ parts, Other part := by
  cases item with
  | text itemId delta | reasoning itemId delta =>
    refine ⟨_, _, rfl, rfl, addedItem_added i rfl (by simp), ?_⟩
    rw [forall_mem_singleton]
    exact .intro
  | tool itemId callId name delta =>
    refine ⟨_, _, rfl, rfl, addedItem_added i rfl (by simp), ?_⟩
    intro part hpart
    cases hpart

end Reading

/-! ## The output items and the events -/

/-- The events agree with the output items of the codec. -/
structure Told (output : List ResponsesOutput) (events : List WireEvent) : Prop where
  numbered : InSequence events
  added : events.filterMap addedItem =
    (output.map itemId).zipIdx.map fun item => (.ofNat item.2, item.1)
  nodup : (output.map itemId).Nodup
  announced : Announced events
  texts : ∀ (i : Nat) (item : ResponsesOutput), output[i]? = some item →
    item.payload = textAt events (.ofNat i)

section Told

variable {output : List ResponsesOutput} {events : List WireEvent} {ev : Unnumbered}
    {event : WireEvent}

theorem InSequence.concat (h : InSequence events) (hplain : Plain ev) :
    InSequence (events ++ [wireEvent (events.length + 1) ev]) := by
  intro k event hk
  rcases Outcome.of_getElem?_concat hk with hold | ⟨rfl, rfl⟩
  · exact h k event hold
  · exact get?_sequenceNumber hplain

theorem Announced.concat (h : Announced events)
    (hevent : ∀ delta, sentDelta event = some delta →
    (delta.index, delta.itemId) ∈ events.filterMap addedItem) :
    Announced (events ++ [event]) := by
  intro k event' delta hk hdelta
  rcases Outcome.of_getElem?_concat hk with hold | ⟨rfl, rfl⟩
  · obtain ⟨hlt, -⟩ := List.getElem?_eq_some_iff.mp hold
    rw [take_append_of_le_length (Nat.le_of_lt hlt)]
    exact h k event' delta hold hdelta
  · rw [take_left]
    exact hevent delta hdelta

theorem textAt_concat_none (h : sentDelta event = none) (index : Json) :
    textAt (events ++ [event]) index = textAt events index := by
  rw [textAt, filterMap_append, filterMap_cons_none h, filterMap_nil, append_nil, textAt]

theorem textAt_concat {delta : SentDelta} (h : sentDelta event = some delta) (index : Json) :
    textAt (events ++ [event]) index =
      textAt events index ++ if delta.index = index then delta.text else "" := by
  rw [textAt, filterMap_append, filterMap_cons_some h, filterMap_nil, filter_append,
    map_append, String.join_append, textAt]
  by_cases hindex : delta.index = index
  · simp [hindex]
  · simp [hindex]

theorem Told.other (h : Told output events) (hother : Other ev) :
    Told output (events ++ [wireEvent (events.length + 1) ev]) where
  numbered := h.numbered.concat hother.plain
  added := by
    rw [filterMap_append, filterMap_cons_none (addedItem_eq_none hother.noItem), filterMap_nil,
      append_nil, h.added]
  nodup := h.nodup
  announced := by
    refine h.announced.concat ?_
    intro delta hsent
    rw [sentDelta_eq_none hother.noDelta] at hsent
    cases hsent
  texts := by
    intro i item hitem
    rw [textAt_concat_none (sentDelta_eq_none hother.noDelta)]
    exact h.texts i item hitem

theorem Told.others (h : Told output events) {evs : List Unnumbered} (hevs : ∀ ev ∈ evs, Other ev) :
    Told output (events ++ wireFrom (events.length + 1) evs) := by
  induction evs generalizing events with
  | nil =>
    rw [wireFrom, append_nil]
    exact h
  | cons ev evs ih =>
    have hfirst := h.other (hevs ev (by simp))
    have hrest := ih hfirst fun ev' hev' => hevs ev' (by simp [hev'])
    rw [length_append, length_singleton, append_assoc] at hrest
    exact hrest

/-- The index of a delta is that of an item. -/
theorem Told.index_of_sent (h : Told output events) {delta : SentDelta}
    (hmem : delta ∈ events.filterMap sentDelta) : ∃ i < output.length, delta.index = .ofNat i := by
  obtain ⟨event, hevent, hdelta⟩ := mem_filterMap.mp hmem
  obtain ⟨k, hk⟩ := mem_iff_getElem?.mp hevent
  have hadded := h.announced k event delta hk hdelta
  have hall : (delta.index, delta.itemId) ∈ events.filterMap addedItem :=
    ((take_sublist k events).filterMap addedItem).subset hadded
  rw [h.added] at hall
  obtain ⟨⟨itemId, i⟩, hitem, heq⟩ := mem_map.mp hall
  obtain ⟨-, hlt, -⟩ := mem_zipIdx hitem
  rw [length_map] at hlt
  exact ⟨i, by omega, (Prod.mk.inj heq).1.symm⟩

theorem Told.textAt_length (h : Told output events) (hroom : output.length < 2 ^ 64) :
    textAt events (.ofNat output.length) = "" := by
  have hnone : (events.filterMap sentDelta).filter
      (fun delta => delta.index = .ofNat output.length) = [] := by
    rw [filter_eq_nil_iff]
    intro delta hdelta hindex
    obtain ⟨i, hi, heq⟩ := h.index_of_sent hdelta
    rw [decide_eq_true_eq, heq] at hindex
    have := ofNat_inj (by omega) hroom hindex
    omega
  rw [textAt, hnone]
  rfl

/-- An item without a text. -/
def blank : ResponsesOutput → ResponsesOutput
  | .text itemId _ => .text itemId ""
  | .reasoning itemId _ => .reasoning itemId ""
  | .tool itemId callId name _ => .tool itemId callId name ""

theorem itemId_grow (more : String) (item : ResponsesOutput) :
    (grow more item).itemId = item.itemId := by
  cases item <;> rfl

theorem payload_grow (more : String) (item : ResponsesOutput) :
    (grow more item).payload = item.payload ++ more := by
  cases item <;> rfl

theorem grow_blank (item : ResponsesOutput) : grow item.payload (blank item) = item := by
  cases item <;> simp [grow, blank, payload]

/-- **An announcement.** -/
theorem Told.announce (h : Told output events) (hroom : output.length < 2 ^ 64)
    (hfresh : ∀ o ∈ output, o.itemId ≠ item.itemId) :
    Told (output ++ [blank item])
      (events ++ wireFrom (events.length + 1) (announcement output.length item)) := by
  obtain ⟨added, parts, heq, hkind, ⟨hplain, hadded⟩, hparts⟩ :=
    announcement_cases output.length item
  have hid : (blank item).itemId = item.itemId := by cases item <;> rfl
  have hsilent : sentDelta (wireEvent (events.length + 1) added) = none :=
    sentDelta_eq_none (by rw [hkind]; decide)
  have hfirst : Told (output ++ [blank item]) (events ++ [wireEvent (events.length + 1) added]) := {
    numbered := h.numbered.concat hplain
    added := by
      rw [filterMap_append, filterMap_cons_some (hadded _), filterMap_nil, h.added, map_append,
        zipIdx_append, map_append, length_map]
      simp [hid]
    nodup := by
      rw [map_append, map_singleton, hid, nodup_append]
      refine ⟨h.nodup, nodup_cons.mpr ⟨by simp, nodup_nil⟩, ?_⟩
      intro itemId hmem itemId' hmem'
      obtain ⟨o, ho, rfl⟩ := mem_map.mp hmem
      rw [mem_singleton.mp hmem']
      exact hfresh o ho
    announced := by
      refine h.announced.concat ?_
      intro delta hsent
      rw [hsilent] at hsent
      cases hsent
    texts := by
      intro i o ho
      rw [textAt_concat_none hsilent]
      rcases Outcome.of_getElem?_concat ho with hold | ⟨rfl, rfl⟩
      · exact h.texts i o hold
      · rw [h.textAt_length hroom]
        cases item <;> rfl }
  have hrest := hfirst.others hparts
  rw [length_append, length_singleton, append_assoc] at hrest
  rw [heq]
  exact hrest

/-- **A delta** of an item that was announced. -/
theorem Told.delta (h : Told output events) {old : ResponsesOutput} {i : Nat}
    (hroom : output.length ≤ 2 ^ 64) (hold : output[i]? = some old)
    (hid : old.itemId = item.itemId) :
    Told (output.set i (grow item.payload old))
      (events ++ [wireEvent (events.length + 1) (deltaEvent i item)]) := by
  obtain ⟨hi, rfl⟩ := List.getElem?_eq_some_iff.mp hold
  have hids : (output.set i (grow item.payload output[i])).map itemId =
      output.map itemId := by
    refine ext_getElem? ?_
    intro j
    rw [map_set, itemId_grow, getElem?_set]
    split
    next hij =>
      subst hij
      simp [hi]
    · rfl
  have hsent := sentDelta_deltaEvent (events.length + 1) i item
  refine ⟨h.numbered.concat (plain_deltaEvent i item), ?_, ?_, ?_, ?_⟩
  · rw [filterMap_append, filterMap_cons_none (addedItem_deltaEvent i item), filterMap_nil,
      append_nil, hids, h.added]
  · rw [hids]
    exact h.nodup
  · refine h.announced.concat ?_
    intro delta hdelta
    rw [hsent] at hdelta
    cases hdelta
    rw [h.added, ← hid]
    refine mem_map.mpr ⟨(output[i].itemId, i), ?_, rfl⟩
    exact mk_mem_zipIdx_iff_getElem?.mpr (by simp [hi])
  · intro j o ho
    rw [textAt_concat hsent]
    rw [getElem?_set] at ho
    split at ho
    next hij =>
      subst hij
      rw [← Option.some.inj ho, payload_grow, h.texts i _ hold, if_pos rfl]
    next hij =>
      have hj : j < output.length := (List.getElem?_eq_some_iff.mp ho).1
      have hne : ofNat i ≠ .ofNat j := fun heq => hij (ofNat_inj (by omega) (by omega) heq)
      rw [h.texts j o ho, if_neg hne, String.append_empty]

/-- **One more delta**, with the announcement of its item if that is new. -/
theorem Told.deltaEvents (h : Told output events) {output' : List ResponsesOutput} {i : Nat}
    {isNew : Bool} (happends : Appends output item output' i isNew)
    (hroom : output'.length ≤ u64Max) :
    Told output'
    (events ++ wireFrom (events.length + 1) (ResponsesCodec.deltaEvents item i isNew)) := by
  have hmax : u64Max < 2 ^ 64 := by decide
  cases happends with
  | known hold hid hfirst hextend =>
    rw [length_set] at hroom
    rw [grow_of_extend hextend]
    exact h.delta (by omega) hold hid
  | new hfresh hcall =>
    rw [length_append, length_singleton] at hroom
    have hannounced := h.announce (by omega) hfresh
    have hlast : (output ++ [blank item])[output.length]? = some (blank item) := by simp
    have hdelta := hannounced.delta (by simp; omega) hlast
      (show (blank item).itemId = item.itemId by cases item <;> rfl)
    rw [set_append_right _ _ (Nat.le_refl _), Nat.sub_self, grow_blank, append_assoc, length_append,
      length_wireFrom, Nat.add_right_comm] at hdelta
    rw [ResponsesCodec.deltaEvents, if_pos rfl, wireFrom_append]
    exact hdelta

end Told

/-! ## Calls -/

namespace ResponsesCodec

variable {c d : ResponsesCodec} {out : List WireEvent} {ev : Unnumbered} {number i : Nat}
  {evs : List Unnumbered} {part : Members} {text : String}

/-- An event that fails leaves the codec as it was. -/
theorem errorsIn_handle {Q : ResponsesCodec → Prop} (event : CanonicalEvent) (hc : Q c) :
    ErrorsIn Q (handle event) c := by
  cases event with
  | created | outputTextDelta | reasoningDelta | toolCallDelta | completed =>
    exact .get (.lift hc fun _ _ => .lift hc fun _ _ => .of_ok ⟨_, _, rfl⟩)
  | usage usage =>
    exact .get (.lift hc fun _ _ => .lift hc fun _ _ => .lift hc fun _ _ => .of_ok ⟨_, _, rfl⟩)
  | failed error => exact .of_ok ⟨_, _, rfl⟩

/-- The same codec, but that its context may be known to be valid. -/
def Validates (c d : ResponsesCodec) : Prop :=
  d = c ∨ (c.limits.validateContext c.context = .ok () ∧ d = c.validated)

theorem encodeEventValues_eq_error {event : CanonicalEvent} {e : GatewayError}
    (h : encodeEventValues event c = .error e d) : Validates c d := by
  have hcall : ErrorsIn (Validates c) (encodeEventValues event) c := by
    refine .get (.lift (.inl rfl) fun _ _ => ?_)
    refine errorsIn_validateOnce (.inl rfl) (errorsIn_handle event (.inl rfl)) fun hvalid => ?_
    exact errorsIn_handle event (.inr ⟨hvalid, rfl⟩)
  exact hcall e d h

theorem encodeEvent_of_terminal (event : CanonicalEvent) (h : c.terminal = true) :
    encodeEvent event c = .error .invalidRequest c := by
  refine bind_of_error ((bind_of_ok rfl).trans (bind_of_error ?_))
  rw [h]
  rfl

theorem encodeEvent_of_valid (event : CanonicalEvent) (hterminal : c.terminal = false)
    (hvalid : c.limits.validateContext c.context = .ok ()) :
    encodeEvent event c = (handle event >>= fun events => pure (sseBytes events))
      c.validated := by
  have honce : validateContextOnce c = .ok () c.validated := by
    refine validateOnce_eq_ok.mpr ?_
    cases hvalidated : c.contextValidated with
    | true => exact .inl ⟨rfl, by rw [validated, ← hvalidated]⟩
    | false => exact .inr ⟨rfl, hvalid, rfl⟩
  have hvalues : encodeEventValues event c = handle event c.validated := by
    refine (bind_of_ok rfl).trans ((bind_of_ok (a := ()) ?_).trans (bind_of_ok honce))
    rw [hterminal]
    rfl
  show EStateM.bind _ _ c = EStateM.bind _ _ _
  rw [EStateM.bind, hvalues, EStateM.bind]

/-- A codec that checks its context again finds it valid again, so no call tells the two apart. -/
theorem Validates.reply (h : Validates c d) (event : CanonicalEvent) :
    ((encodeEvent event).reply c).1 = ((encodeEvent event).reply d).1 ∧
      Validates ((encodeEvent event).reply c).2 ((encodeEvent event).reply d).2 := by
  obtain rfl | ⟨hvalid, rfl⟩ := h
  · exact ⟨rfl, .inl rfl⟩
  · unfold reply
    by_cases hterminal : c.terminal = true
    · rw [encodeEvent_of_terminal event hterminal,
        @encodeEvent_of_terminal c.validated event hterminal]
      exact ⟨rfl, .inr ⟨hvalid, rfl⟩⟩
    · have hopen : c.terminal = false := (Bool.not_eq_true _).mp hterminal
      rw [encodeEvent_of_valid event hopen hvalid,
        @encodeEvent_of_valid c.validated event hopen hvalid]
      exact ⟨rfl, .inl rfl⟩

/-- **A call that fails did not happen.** -/
theorem encodeEvent_untouched {event : CanonicalEvent} {e : GatewayError}
    (h : encodeEvent event c = .error e d) :
    (d.responseId = c.responseId ∧ d.output = c.output ∧ d.aggregateBytes = c.aggregateBytes ∧
      d.usage = c.usage ∧ d.terminal = c.terminal ∧ d.sequenceNumber = c.sequenceNumber) ∧
      ∀ events, Call.replies encodeEvent d events = Call.replies encodeEvent c events := by
  have hcall : ErrorsIn (Validates c) (encodeEvent event) c :=
    .bind (fun _ _ => encodeEventValues_eq_error) fun _ _ _ => .of_ok ⟨_, _, rfl⟩
  have hvalidates := hcall e d h
  refine ⟨?_, fun events => (replies_congr (fun event h => h.reply event) hvalidates events).symm⟩
  obtain rfl | ⟨-, rfl⟩ := hvalidates
  · simp
  · simp

/-- A second beginning, after the response was created and has some text. -/
theorem encodeEvent_untouched_again :
    ∃ c sent d,
      Call.runAll encodeEvent (.new bareContext) [.created "r", .outputTextDelta "i" "x"] =
        .ok (c, sent) ∧
      encodeEvent (.created "s") c = .error .invalidRequest d ∧ d.output = c.output ∧
      d.sequenceNumber = c.sequenceNumber ∧
      ∀ events, replies encodeEvent d events = replies encodeEvent c events := by
  obtain ⟨c, sent, d, hrun, herror⟩ : ∃ c sent d,
      Call.runAll encodeEvent (.new bareContext) [.created "r", .outputTextDelta "i" "x"] =
      .ok (c, sent) ∧ encodeEvent (.created "s") c = .error .invalidRequest d := ⟨_, _, _, rfl, rfl⟩
  obtain ⟨⟨-, houtput, -, -, -, hnumber⟩, hreplies⟩ := encodeEvent_untouched herror
  exact ⟨c, sent, d, hrun, herror, houtput, hnumber, hreplies⟩

/-! ### The end -/

theorem firstPart_norm {fields : Members} {key : String}
    (hkey : fields.lookup key = some (.arr [.obj part]))
    (htext : part.lookup "text" = some (.str text)) (hkeys : (fields.map Prod.fst).Nodup := by simp)
    (hpart : (part.map Prod.fst).Nodup := by simp) :
    firstPart (obj fields).norm key = some text := by
  rw [firstPart, get?_norm_obj key hkeys, hkey]
  show (do let parts ← (arr [.obj part]).norm.asArray
           let part ← parts.head?
           stringAt part "text") = some text
  exact stringAt_norm htext hpart

theorem itemText_value (item : ResponsesOutput) :
    stringAt item.value.norm "id" = some item.itemId ∧ itemText item.value.norm =
      some item.payload := by
  cases item with
  | text itemId content =>
    have htype : stringAt (text itemId content).value.norm "type" = some "message" :=
      stringAt_norm rfl
    refine ⟨stringAt_norm rfl, ?_⟩
    rw [itemText, htype]
    exact firstPart_norm rfl rfl
  | reasoning itemId summary =>
    have htype : stringAt (reasoning itemId summary).value.norm "type" = some "reasoning" :=
      stringAt_norm rfl
    refine ⟨stringAt_norm rfl, ?_⟩
    rw [itemText, htype]
    exact firstPart_norm rfl rfl
  | tool itemId callId name arguments =>
    have htype : stringAt (tool itemId callId name arguments).value.norm "type" =
        some "function_call" := stringAt_norm rfl
    refine ⟨stringAt_norm rfl, ?_⟩
    rw [itemText, htype]
    exact stringAt_norm rfl

/-- What a client reads off an event that ends something. -/
theorem doneText_eq_some (hplain : Plain ev)
    (hindex : (wireFields number ev).lookup "output_index" = some (.ofNat i))
    (htext : repeatedText (wireEvent number ev) = some text) :
    doneText (wireEvent number ev) = some (.ofNat i, text) := by
  rw [doneText, get?_index hplain hindex, htext]
  rfl

theorem repeatedText_part (hplain : Plain ev)
    (hpart : (wireFields number ev).lookup "part" = some (.obj part))
    (hkeys : (part.map Prod.fst).Nodup) (htext : part.lookup "text" = some (.str text)) :
    ((wireEvent number ev).2.tree.get? "part").bind (fun part => stringAt part "text") =
      some text := by
  rw [get?_wireEvent (hplain number), hpart]
  exact stringAt_norm htext hkeys

theorem repeatedText_item (hplain : Plain ev)
    (hitem : (wireFields number ev).lookup "item" = some item.value) :
    ((wireEvent number ev).2.tree.get? "item").bind itemText = some item.payload := by
  rw [get?_wireEvent (hplain number), hitem]
  exact (itemText_value item).2

theorem other_doneEvents (h : ev ∈ doneEvents (item, i)) : Other ev := by
  cases item with
  | text itemId content | reasoning itemId content =>
    simp only [doneEvents, mem_cons, not_mem_nil, or_false] at h
    rcases h with rfl | rfl | rfl <;> exact .intro
  | tool itemId callId name arguments =>
    simp only [doneEvents, mem_cons, not_mem_nil, or_false] at h
    rcases h with rfl | rfl <;> exact .intro

theorem doneText_doneEvents (h : ev ∈ doneEvents (item, i)) (number : Nat) :
    doneText (wireEvent number ev) = some (.ofNat i, item.payload) := by
  have hplain := (other_doneEvents h).plain
  cases item with
  | text itemId content | reasoning itemId content =>
    simp only [doneEvents, mem_cons, not_mem_nil, or_false] at h
    rcases h with rfl | rfl | rfl
    · exact doneText_eq_some hplain rfl (stringAt_wireEvent hplain rfl)
    · exact doneText_eq_some hplain rfl (repeatedText_part hplain rfl (by simp) rfl)
    · exact doneText_eq_some hplain rfl (repeatedText_item hplain rfl)
  | tool itemId callId name arguments =>
    simp only [doneEvents, mem_cons, not_mem_nil, or_false] at h
    rcases h with rfl | rfl
    · exact doneText_eq_some hplain rfl (stringAt_wireEvent hplain rfl)
    · exact doneText_eq_some hplain rfl (repeatedText_item hplain rfl)

theorem other_ending (c : ResponsesCodec) (response : Json) :
    Other (c.ending.2, [("response", response)]) := by
  unfold ending
  split <;> exact .intro

/-! ### Runs -/

/-- The events agree with a codec. -/
structure Tells (c : ResponsesCodec) (events : List WireEvent) : Prop where
  told : Told c.output events
  next : c.sequenceNumber = events.length + 1
  items : c.output.length ≤ c.limits.maxOutputItems
  room : c.limits.maxOutputItems ≤ u64Max

variable {events : List WireEvent}

theorem Tells.others (h : Tells c events) (hevs : ∀ ev ∈ evs, Other ev)
    (hwires : wires evs c = .ok out d) :
    Tells d (events ++ out) := by
  obtain ⟨rfl, rfl⟩ := wires_eq_ok.mp hwires
  refine ⟨?_, ?_, h.items, h.room⟩
  · rw [h.next]
    exact h.told.others hevs
  · show c.sequenceNumber + evs.length = _
    rw [h.next, length_append, length_wireFrom, Nat.add_right_comm]

theorem Tells.handle {event : CanonicalEvent} (h : Tells c events)
    (hcall : handle event c = .ok out d) :
    Tells d (events ++ out) := by
  cases hdelta : itemOf event with
  | some item =>
    obtain ⟨i, isNew, output, aggregateBytes, happends, hlength, rfl, rfl⟩ :=
      handle_delta hdelta hcall
    have hitems : output.length ≤ c.limits.maxOutputItems :=
      Nat.le_trans hlength (Nat.max_le.mpr ⟨h.items, Nat.le_refl _⟩)
    refine ⟨?_, ?_, hitems, h.room⟩
    · rw [h.next]
      exact h.told.deltaEvents happends (Nat.le_trans hitems h.room)
    · show c.sequenceNumber + _ = _
      rw [h.next, length_append, length_wireFrom, Nat.add_right_comm]
  | none =>
    cases event with
    | created responseId =>
      obtain ⟨-, -, hwires⟩ := encodeCreated_eq_ok.mp hcall
      have hcreated : Tells { c with responseId := some responseId } events := { h with }
      refine hcreated.others ?_ hwires
      rw [forall_mem_singleton]
      exact .intro
    | usage usage =>
      obtain ⟨-, -, value, -, rfl, rfl⟩ := encodeUsage_eq_ok.mp hcall
      rw [append_nil]
      exact { h with }
    | completed =>
      obtain ⟨-, usage, -, hwires⟩ := encodeCompleted_eq_ok.mp hcall
      have hterminal : Tells { c with terminal := true } events := { h with }
      refine hterminal.others ?_ hwires
      intro ev hev
      rcases mem_append.mp hev with hdone | hlast
      · obtain ⟨⟨item, i⟩, -, hmem⟩ := mem_flatMap.mp hdone
        exact other_doneEvents hmem
      · rw [mem_singleton.mp hlast]
        exact other_ending c _
    | failed error =>
      have hterminal : Tells { c with terminal := true } events := { h with }
      refine hterminal.others ?_ (encodeFailed_eq_ok.mp hcall)
      rw [forall_mem_singleton]
      exact .intro
    | _ => cases hdelta

theorem Tells.validated (h : Tells c events) : Tells c.validated events :=
  { h with }

/-- **Any calls.** -/
theorem tells_attempts {context : ResponsesEncodeContext} {limits : ResponsesLimits}
    (hroom : limits.maxOutputItems ≤ u64Max) (events : Events) :
    Tells (attempts encodeEventValues (withLimits context limits) events).1
      (attempts encodeEventValues (withLimits context limits) events).2 := by
  refine attempts_invariant ?_ ?_ ?_ events
  · intro event c d sent out h hcall
    obtain ⟨-, -, hhandle⟩ := encodeEventValues_eq_ok.mp hcall
    exact h.validated.handle hhandle
  · intro event c d sent e h hcall
    obtain rfl | ⟨-, rfl⟩ := encodeEventValues_eq_error hcall
    · exact h
    · exact h.validated
  · refine ⟨⟨?_, rfl, nodup_nil, ?_, ?_⟩, rfl, Nat.zero_le _, hroom⟩
    · intro k event hk
      cases hk
    · intro k event delta hk
      cases hk
    · intro i item hitem
      cases hitem

theorem mem_wireFrom {event : WireEvent} (h : event ∈ wireFrom number evs) :
    ∃ number', ∃ ev ∈ evs, event = wireEvent number' ev := by
  induction evs generalizing number with
  | nil => cases h
  | cons ev evs ih =>
    rcases mem_cons.mp h with rfl | hrest
    · exact ⟨number, ev, by simp, rfl⟩
    · obtain ⟨number', ev', hev', rfl⟩ := ih hrest
      exact ⟨number', ev', by simp [hev'], rfl⟩

theorem exists_mem_wireFrom (number : Nat) (h : ev ∈ evs) :
    ∃ number', wireEvent number' ev ∈ wireFrom number evs := by
  induction evs generalizing number with
  | nil => cases h
  | cons ev' evs ih =>
    rcases mem_cons.mp h with rfl | hrest
    · exact ⟨number, by simp [wireFrom]⟩
    · obtain ⟨number', hmem⟩ := ih (number + 1) hrest
      exact ⟨number', by simp [wireFrom, hmem]⟩

theorem responseOutput_wireEvent (number : Nat) (name : String) (response : Json) :
    responseOutput (wireEvent number (name, [("response", response)])) =
      (response.norm.get? "output").bind asArray := by
  rw [responseOutput, get?_response]
  rfl

theorem responseOutput_ending (c : ResponsesCodec) (number : Nat) (name status : String)
    (output : List Json) (usage : Json) :
    responseOutput (wireEvent number (name, [("response", c.responseValue status output usage)])) =
      some (output.map norm) := by
  obtain ⟨fields, hfields, hkeys, -, houtput, -⟩ := responseValue_members c status output usage
  rw [responseOutput_wireEvent, hfields, get?_norm_obj "output" hkeys, houtput, Option.map_some,
    norm_arr]
  rfl

/-- The events that end a response repeat what was sent for every item, and so does the response in
    the last of them, with the items in the order of their indices. -/
def Repeats (itemIds : List String) (sent ends : List WireEvent) : Prop :=
  ∃ dones last items, ends = dones ++ [last] ∧
    (∀ event ∈ dones, ∃ i < itemIds.length,
    doneText event = some (.ofNat i, textAt sent (.ofNat i))) ∧
      (∀ i < itemIds.length, ∃ event ∈ dones, event.1 = "response.output_item.done" ∧
    doneText event = some (.ofNat i, textAt sent (.ofNat i))) ∧ responseOutput last = some items ∧
    items.map (fun item => (stringAt item "id", itemText item)) =
      itemIds.zipIdx.map fun item => (some item.1, some (textAt sent (.ofNat item.2)))

/-- **The end of a response.** -/
theorem Tells.repeats_handle (h : Tells c events)
    (hcall : Outbound.ResponsesCodec.handle .completed c = .ok out d) :
    Repeats (c.output.map itemId) events out := by
  obtain ⟨-, usage, -, hwires⟩ := encodeCompleted_eq_ok.mp hcall
  obtain ⟨rfl, -⟩ := wires_eq_ok.mp hwires
  rw [wireFrom_concat]
  refine ⟨_, _, _, rfl, ?_, ?_, responseOutput_ending _ _ _ _ _ _, ?_⟩
  · intro event hevent
    obtain ⟨number, ev, hev, rfl⟩ := mem_wireFrom hevent
    obtain ⟨⟨item, i⟩, hitem, hmem⟩ := mem_flatMap.mp hev
    have hget := mk_mem_zipIdx_iff_getElem?.mp hitem
    refine ⟨i, ?_, ?_⟩
    · rw [length_map]
      exact (List.getElem?_eq_some_iff.mp hget).1
    · rw [doneText_doneEvents hmem, h.told.texts i item hget]
  · intro i hi
    rw [length_map] at hi
    have hget : c.output[i]? = some c.output[i] := getElem?_eq_getElem hi
    obtain ⟨ev, hev, hkind⟩ : ∃ ev ∈ doneEvents (c.output[i], i),
        ev.1 = "response.output_item.done" := by
      cases c.output[i] with
      | text itemId content | reasoning itemId content =>
        exact ⟨_, mem_cons_of_mem _ (mem_cons_of_mem _ mem_cons_self), rfl⟩
      | tool itemId callId name arguments => exact ⟨_, mem_cons_of_mem _ mem_cons_self, rfl⟩
    obtain ⟨number, hmem⟩ := exists_mem_wireFrom c.sequenceNumber
      (mem_flatMap.mpr ⟨(c.output[i], i), mk_mem_zipIdx_iff_getElem?.mpr hget, hev⟩)
    exact ⟨_, hmem, hkind, by rw [doneText_doneEvents hev, h.told.texts i _ hget]⟩
  · refine ext_getElem? ?_
    intro k
    simp only [getElem?_map, getElem?_zipIdx, Option.map_map]
    cases hget : c.output[k]? with
    | none => rfl
    | some item =>
      obtain ⟨hid, htext⟩ := itemText_value item
      rw [h.told.texts k item hget] at htext
      simp [hid, htext]

/-- **What a client is told.** After any calls, the successful and the failed ones together, the
    events that were sent are numbered without a gap; every item is added once, under its place in
    the output and before its first delta; and if the response can be completed, all that is
    repeated then is what was sent. -/
theorem encodeEvent_tells {context : ResponsesEncodeContext} {limits : ResponsesLimits}
    (hroom : limits.maxOutputItems ≤ u64Max) (events : List CanonicalEvent) :
    ∃ c sent itemIds,
      Call.attempts encodeEventValues (withLimits context limits) events = (c, sent) ∧
      Call.attempts encodeEvent (withLimits context limits) events =
        (c, sent.flatMap fun e => encodeSse (some e.1) e.2) ∧
      InSequence sent ∧
      (itemIds.Nodup ∧
        sent.filterMap addedItem = itemIds.zipIdx.map (fun item => (.ofNat item.2, item.1)) ∧
        Announced sent) ∧
      ∀ bytes d, encodeEvent .completed c = .ok bytes d →
        ∃ ends, bytes = (ends.flatMap fun e => encodeSse (some e.1) e.2) ∧
        Repeats itemIds sent ends := by
  have htells : Tells (attempts encodeEventValues (withLimits context limits) events).1 _ :=
    tells_attempts hroom events
  refine ⟨_, _, _, rfl, attempts_flatMap (fun _ => rfl) _ _, htells.told.numbered,
    ⟨htells.told.nodup, htells.told.added, htells.told.announced⟩, ?_⟩
  intro bytes d hcall
  obtain ⟨ends, hends, rfl⟩ := encodeEvent_eq_ok.mp hcall
  obtain ⟨-, -, hhandle⟩ := encodeEventValues_eq_ok.mp hends
  exact ⟨ends, rfl, htells.validated.repeats_handle hhandle⟩

/-- A text in two pieces, with two calls between them that fail. -/
def interrupted : Events :=
  [.created "r", .outputTextDelta "i" "x", .created "s", .completed, .outputTextDelta "i" "y",
    .usage ⟨1, 1, none, none, .empty⟩]

theorem encodeEvent_tells_interrupted :
    ((encodeEvent .completed).outcome
      (Call.attempts encodeEventValues (.new bareContext) interrupted).1).toOption.isSome = true ∧
    ∃ c sent itemIds, Call.attempts encodeEventValues (.new bareContext) interrupted = (c, sent) ∧
      Call.attempts encodeEvent (.new bareContext) interrupted =
        (c, sent.flatMap fun e => encodeSse (some e.1) e.2) ∧
      InSequence sent ∧
      (itemIds.Nodup ∧
        sent.filterMap addedItem = itemIds.zipIdx.map (fun item => (.ofNat item.2, item.1)) ∧
        Announced sent) ∧
      ∀ bytes d, encodeEvent .completed c = .ok bytes d →
        ∃ ends, bytes = (ends.flatMap fun e => encodeSse (some e.1) e.2) ∧
        Repeats itemIds sent ends :=
  ⟨by decide +kernel, encodeEvent_tells (by decide) interrupted⟩

end ResponsesCodec

end Wokcore.Protocols.Outbound
