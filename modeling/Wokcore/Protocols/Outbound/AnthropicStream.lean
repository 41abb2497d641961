import Wokcore.Lib.Segments
import Wokcore.Protocols.Outbound.AnthropicBlocks

/-!
# A completed Anthropic stream

The grammar of a stream, `messageWires`: the start of the message, its content blocks one after the
other under the numbers 0, 1, 2, …, the last delta and the stop. A block is announced, carries at
least one delta of its kind, is signed if it is a thinking block, and is stopped.

What the codec has sent between two events is that grammar up to the block that is open (`Sent`).
The blocks are the segments of neighbouring deltas of one item (`blocksOf`), and the codec never
opens a second block for an item, so the segment that ends is the one that was open.
-/

set_option autoImplicit false

namespace Wokcore.Protocols.Outbound

open Lib Outcome Protocols.Stream AnthropicCodec

open AnthropicCodec (WireEvent wire)

variable {deltas : Events}

/-! ## The grammar -/

/-- What a content block is, with all that its stream says once. -/
inductive BlockKind where
  | text
  | thinking (signature : String)
  | toolUse (id name : String)
deriving DecidableEq

/-- A block with the texts of its deltas. -/
abbrev SentBlock := Segment BlockKind String

variable (index : Nat)

namespace BlockKind

/-- How a block is announced. -/
def contentBlock : BlockKind → Json
  | .text => .obj [("type", .str "text"), ("text", .str "")]
  | .thinking _ => .obj [("type", .str "thinking"), ("thinking", .str ""), ("signature", .str "")]
  | .toolUse id name =>
    .obj [("type", .str "tool_use"), ("id", .str id), ("name", .str name), ("input", .obj [])]

/-- The delta of a block of this kind. -/
def delta (text : String) : BlockKind → Json
  | .text => .obj [("type", .str "text_delta"), ("text", .str text)]
  | .thinking _ => .obj [("type", .str "thinking_delta"), ("thinking", .str text)]
  | .toolUse _ _ => .obj [("type", .str "input_json_delta"), ("partial_json", .str text)]

def signature : BlockKind → String
  | .thinking signature => signature
  | .text | .toolUse _ _ => ""

/-- The signature at the end of a thinking block. -/
def signed : BlockKind → List WireEvent
  | .thinking signature =>
    [deltaWire index (.obj [("type", .str "signature_delta"), ("signature", .str signature)])]
  | .text | .toolUse _ _ => []

end BlockKind

def stopWire : WireEvent := wire "content_block_stop" [("index", .ofNat index)]

/-- A block up to its last delta. -/
def openWires (block : SentBlock) : List WireEvent :=
  startWire index block.key.contentBlock :: block.items.map fun text => deltaWire index
    (block.key.delta text)

/-- A whole block. -/
def blockWires (block : SentBlock) : List WireEvent :=
  openWires index block ++ block.key.signed index ++ [stopWire index]

/-- The blocks of a message, under their numbers. -/
def contentWires (blocks : List SentBlock) : List WireEvent :=
  blocks.zipIdx.flatMap fun block => blockWires block.2 block.1

/-- A whole message. -/
def messageWires (message delta usage : Json) (blocks : List SentBlock) : List WireEvent :=
  wire "message_start" [("message", message)] :: (contentWires blocks ++
    [wire "message_delta" [("delta", delta), ("usage", usage)], wire "message_stop" []])

theorem contentWires_concat (blocks : List SentBlock) (block : SentBlock) :
    contentWires (blocks ++ [block]) = contentWires blocks ++ blockWires blocks.length block := by
  simp [contentWires, List.zipIdx_append]

theorem openWires_extend (block : SentBlock) (text : String) :
    openWires index (block.extend text) =
      openWires index block ++ [deltaWire index (block.key.delta text)] := by
  rw [openWires, Segment.items_extend, List.map_append]
  rfl

/-! ## The blocks of deltas -/

/-- What tells the block of a delta from the one before. -/
inductive BlockKey where
  | text (itemId : String)
  | thinking (itemId : String)
  | toolUse (itemId callId name : String)
deriving DecidableEq

/-- Neighbouring deltas of one item. -/
abbrev ItemBlock := Segment BlockKey String

variable (template : AnthropicResponseTemplate)

namespace BlockKey

def itemId : BlockKey → String
  | .text itemId => itemId
  | .thinking itemId => itemId
  | .toolUse itemId _ _ => itemId

/-- The open block of the codec. -/
def active : BlockKey → ActiveBlock
  | .text itemId => .text itemId index
  | .thinking itemId => .reasoning itemId index
  | .toolUse itemId callId name => .tool itemId callId name index

/-- What the client learns of the block: the item is dropped and the signature comes from the
    context. -/
def kind : BlockKey → BlockKind
  | .text _ => .text
  | .thinking itemId => .thinking ((template.thinkingSignatures.get? itemId).getD "")
  | .toolUse _ callId name => .toolUse callId name

end BlockKey

def blockKey : CanonicalEvent → BlockKey
  | .reasoningDelta itemId _ => .thinking itemId
  | .toolCallDelta itemId callId name _ => .toolUse itemId callId name
  | e => .text (itemIdOf e)

/-- The text a delta carries. -/
def deltaText : CanonicalEvent → String
  | .outputTextDelta _ delta => delta
  | .reasoningDelta _ delta => delta
  | .toolCallDelta _ _ _ delta => delta
  | _ => ""

/-- The blocks after one more delta. -/
def addDelta (blocks : List ItemBlock) (e : CanonicalEvent) : List ItemBlock :=
  addItem blocks (blockKey e) (deltaText e)

/-- The blocks of a message. -/
def blocksOf (deltas : Events) : List ItemBlock := deltas.foldl addDelta []

theorem itemId_blockKey (e : CanonicalEvent) : (blockKey e).itemId = itemIdOf e := by
  cases e <;> rfl

theorem active_blockKey (e : CanonicalEvent) (i : Nat) : (blockKey e).active i = blockOf e i := by
  cases e <;> rfl

theorem active_inj {k l : BlockKey} {i j : Nat} (h : k.active i = l.active j) : k = l ∧ i = j := by
  cases k <;> cases l <;> simp [BlockKey.active] at h ⊢ <;> simp [h]

theorem announced_eq (e : CanonicalEvent) :
    announced e = ((blockKey e).kind template).contentBlock := by
  cases e <;> rfl

theorem carried_eq {e : CanonicalEvent} (h : e.isDelta = true) :
    carried e = ((blockKey e).kind template).delta (deltaText e) := by
  cases e <;> first | rfl | cases h

/-! ## What has been sent -/

/-- What the codec has sent of the content, by the blocks so far: nothing yet, or whole blocks and
    the open one. -/
inductive Sent (c : AnthropicCodec) : List ItemBlock → List WireEvent → Prop where
  | start (hactive : c.active = none) (hnext : c.nextIndex = 0) : Sent c [] []
  | «open» (done : List ItemBlock) (last : ItemBlock)
      (hactive : c.active = some (last.key.active done.length))
      (hnext : c.nextIndex = done.length + 1) (hseen : last.key.itemId ∈ c.seenItems) :
      Sent c (done ++ [last]) (contentWires (done.map (·.mapKey (·.kind c.context.response))) ++
        openWires done.length (last.mapKey (·.kind c.context.response)))

section Steps

variable {c d : AnthropicCodec} {blocks : List ItemBlock} {ws out : List WireEvent}

theorem Sent.validated (h : Sent c blocks ws) : Sent c.validated blocks ws := by
  cases h with
  | start hactive hnext => exact .start hactive hnext
  | «open» done last hactive hnext hseen => exact .open done last hactive hnext hseen

/-- Closing the open block completes it. -/
theorem closing_open {key : BlockKey} {index : Nat} (hactive : c.active = some (key.active index))
    (h : c.closing = .ok out) :
    out = (key.kind c.context.response).signed index ++ [stopWire index] := by
  rw [closing, hactive] at h
  cases key with
  | text | toolUse =>
    cases h
    rfl
  | thinking itemId =>
    simp only [BlockKey.active, closingWires, do_ok] at h
    obtain ⟨signature, hsignature, rfl⟩ := h
    rw [AnthropicResponseTemplate.signatureOf] at hsignature
    split at hsignature
    next found hfound =>
      cases hsignature
      simp only [BlockKey.kind, hfound, Option.getD_some]
      rfl
    · cases hsignature

theorem closing_none (hactive : c.active = none) (h : c.closing = .ok out) : out = [] := by
  rw [closing, hactive] at h
  cases h
  rfl

/-- What is sent up to the end of the block that is open. -/
theorem Sent.closed (h : Sent c blocks ws) (hclosing : c.closing = .ok out) :
    ws ++ out = contentWires (blocks.map (·.mapKey (·.kind c.context.response))) ∧
      c.nextIndex = blocks.length := by
  cases h with
  | start hactive hnext =>
    rw [closing_none hactive hclosing]
    exact ⟨rfl, hnext⟩
  | «open» done last hactive hnext hseen =>
    rw [closing_open hactive hclosing, List.map_append, List.map_singleton, contentWires_concat,
      List.length_map]
    refine ⟨?_, by rw [hnext, List.length_append, List.length_singleton]⟩
    simp only [blockWires, List.append_assoc]
    rfl

/-- **One delta.** -/
theorem Sent.step {e : CanonicalEvent} (hsent : Sent c blocks ws) (hdelta : e.isDelta = true)
    (h : Delivers e c out d) : Sent d (addDelta blocks e) (ws ++ out) ∧ d.context = c.context := by
  cases h with
  | @inside i hactive =>
    refine ⟨?_, rfl⟩
    cases hsent with
    | start hnone hnext =>
      rw [hnone] at hactive
      cases hactive
    | «open» done last hopen hnext hseen =>
      -- the delta belongs to the block that is open
      rw [hopen, Option.some.injEq, ← active_blockKey] at hactive
      obtain ⟨hkey, rfl⟩ := active_inj hactive
      have hadd : addDelta (done ++ [last]) e = done ++ [last.extend (deltaText e)] := by
        rw [addDelta, ← hkey, addItem_same]
      have hwires : openWires done.length (last.mapKey (·.kind c.context.response)) ++
          [deltaWire done.length (carried e)] =
            openWires done.length
            ((last.extend (deltaText e)).mapKey (·.kind c.context.response)) := by
        rw [carried_eq c.context.response hdelta, ← hkey]
        exact (openWires_extend ..).symm
      rw [hadd, List.append_assoc, hwires]
      exact .open done (last.extend (deltaText e)) hopen hnext hseen
  | opening hitem hclosing =>
    refine ⟨?_, rfl⟩
    obtain ⟨hclosed, hnext⟩ := hsent.closed hclosing
    have hadd : addDelta blocks e = blocks ++ [⟨blockKey e, deltaText e, []⟩] := by
      cases hsent with
      | start hnone hzero => rfl
      | «open» done last hopen hnumber hseen =>
        -- an item that has a block does not get another one
        refine addItem_new done ?_ _
        intro hkey
        rw [hkey, itemId_blockKey] at hseen
        exact hitem.2.2 hseen
    rw [hadd, ← List.append_assoc, hclosed, announced_eq c.context.response,
      carried_eq c.context.response hdelta, hnext]
    refine .open blocks ⟨blockKey e, deltaText e, []⟩ ?_ rfl ?_
    · show some (blockOf e blocks.length) = _
      rw [← active_blockKey]
    · rw [itemId_blockKey]
      exact List.mem_cons_self

/-- **Deltas.** -/
theorem Sent.run (hsent : Sent c blocks ws) (hdeltas : AllDeltas deltas)
    (h : Call.runAll encodeEventValues c deltas = .ok (d, out)) :
    Sent d (deltas.foldl addDelta blocks) (ws ++ out) ∧ d.context = c.context := by
  induction deltas generalizing c blocks ws out with
  | nil =>
    cases h
    rw [List.append_nil]
    exact ⟨hsent, rfl⟩
  | cons e deltas ih =>
    obtain ⟨u, o, p, hstep, hrest, rfl⟩ := feed_cons_eq_ok.mp h
    have hdelivers := delivers_handle (hdeltas e (by simp))
      (handle_of_step encodeEventValues_eq_ok hstep)
    obtain ⟨hu, hcontext⟩ := hsent.validated.step (hdeltas e (by simp)) hdelivers
    obtain ⟨hd, hcontext'⟩ := ih hu (fun e' he' => hdeltas e' (by simp [he'])) hrest
    rw [← List.append_assoc]
    exact ⟨hd, hcontext'.trans hcontext⟩

/-- Numbers are given to items, of which there are not too many. -/
structure Numbered (c : AnthropicCodec) : Prop where
  next : c.nextIndex = c.seenItems.length
  room : c.nextIndex ≤ c.limits.maxOutputItems

theorem Numbered.run (hc : Numbered c) (hdeltas : AllDeltas deltas)
    (h : Call.runAll encodeEventValues c deltas = .ok (d, out)) :
    Numbered d ∧ d.limits = c.limits := by
  induction deltas generalizing c out with
  | nil =>
    cases h
    exact ⟨hc, rfl⟩
  | cons e deltas ih =>
    obtain ⟨u, o, p, hstep, hrest, rfl⟩ := feed_cons_eq_ok.mp h
    have hrun := fun hu : Numbered u => ih hu (fun e' he' => hdeltas e' (by simp [he'])) hrest
    cases delivers_handle (hdeltas e (by simp)) (handle_of_step encodeEventValues_eq_ok hstep) with
    | inside hactive => exact hrun ⟨hc.next, hc.room⟩
    | opening hitem hclosing =>
      have hroom : c.seenItems.length < c.limits.maxOutputItems := hitem.2.1
      have hnext := hc.next
      refine hrun ⟨?_, ?_⟩
      · show c.nextIndex + 1 = c.seenItems.length + 1
        rw [hnext]
      · show c.nextIndex + 1 ≤ c.limits.maxOutputItems
        omega

end Steps

/-! ## Whole streams -/

section Streams

variable {context : AnthropicEncodeContext} {limits : AnthropicLimits} {events : Events}
  {c : AnthropicCodec} {ws : List WireEvent} {id : String} {usage : Usage}

theorem AnthropicCodec.ordered :
    Ordered (Call.stepOfCall encodeEventValues) (fun c => c.flags.phase) fun c => c.flags.Sound :=
  .of_flags fun h => flags_encodeEventValues (Call.outcome_eq_ok.mp h)

/-- A run that gets to `Completed` is one of a whole message. -/
theorem shaped_of_runAll (h : Call.runAll encodeEventValues (withLimits context limits) events =
    .ok (c, ws)) (hcompleted : .completed ∈ events) : ∃ id deltas usage, AllDeltas deltas ∧
      events = whole id deltas usage := by
  have hsound : (withLimits context limits).flags.Sound := fun hcounted => Bool.noConfusion hcounted
  exact shaped_iff.mp (ordered.shaped hsound rfl h hcompleted)

/-- **What a whole message sends**, block by block. -/
theorem runAll_messageWires (hdeltas : AllDeltas deltas)
    (h : Call.runAll encodeEventValues (withLimits context limits)
      (whole id deltas usage) = .ok (c, ws)) :
    ws = messageWires (startMessage context id)
      (.obj [("stop_reason", .str context.response.stopReason.asStr),
        ("stop_sequence", optionJson .str context.response.stopSequence)])
      (finalUsageValue usage).tree
      ((blocksOf deltas).map (·.mapKey (·.kind context.response))) := by
  obtain ⟨c₁, c₂, sent, closing, rfl, hrun, hclosing, rfl⟩ := runAll_cases h
  obtain ⟨hsent, hcontext⟩ := (Sent.start rfl rfl).run hdeltas hrun
  have hclosed := (hsent.validated.closed hclosing).1
  rw [List.nil_append] at hclosed
  rw [show ({ c₂ with contextValidated := true } : AnthropicCodec).context =
    context from hcontext] at hclosed
  rw [hcontext, messageWires, blocksOf, ← hclosed, List.append_assoc]
  rfl

/-- There are not more blocks than items the codec has room for. -/
theorem length_blocksOf_le (hdeltas : AllDeltas deltas)
      (h : Call.runAll encodeEventValues (withLimits context limits) (whole id deltas usage) =
      .ok (c, ws)) :
    (blocksOf deltas).length ≤ limits.maxOutputItems := by
  obtain ⟨c₁, c₂, sent, closing, rfl, hrun, hclosing, rfl⟩ := runAll_cases h
  obtain ⟨hsent, -⟩ := (Sent.start rfl rfl).run hdeltas hrun
  obtain ⟨hnumbered, hlimits⟩ := Numbered.run ⟨rfl, Nat.zero_le _⟩ hdeltas hrun
  have hlength := (hsent.validated.closed hclosing).2
  have hroom := hnumbered.room
  rw [hlimits] at hroom
  exact Nat.le_trans (Nat.le_of_eq hlength.symm) hroom

/-- A codec that has ended its stream sends nothing more. -/
theorem encodeEvent_terminal (h : c.terminal = true) (e : CanonicalEvent) :
    encodeEvent e c = .error .invalidRequest c := by
  have hlift : Call.lift (requireThat (!c.terminal)) c = .error .invalidRequest c := by
    rw [h]
    rfl
  exact Call.bind_of_error ((Call.bind_of_ok rfl).trans (Call.bind_of_error hlift))

theorem terminal_of_completed {d : AnthropicCodec} {as : Events}
    (h : Call.runAll encodeEventValues c (as ++ [.completed]) = .ok (d, ws)) :
    d.terminal = true := by
  obtain ⟨u, o, p, -, hlast, -⟩ := feed_append.mp h
  rw [feed_singleton] at hlast
  obtain ⟨-, -, -, rfl⟩ := completed_eq_ok.mp (handle_of_step encodeEventValues_eq_ok hlast)
  rfl

/-- **A completed stream is well formed.** If every call succeeds up to `Completed`, what was sent
    is one message of the grammar, and no further call sends anything. -/
theorem encodeEvent_wellFormed {bytes : Bytes}
    (h : Call.runAll encodeEvent (withLimits context limits) events = .ok (c, bytes))
    (hcompleted : .completed ∈ events) :
    (∃ message delta usage blocks, bytes =
      (messageWires message delta usage blocks).flatMap fun e => encodeSse (some e.1) e.2) ∧
    ∀ e, encodeEvent e c = .error .invalidRequest c := by
  obtain ⟨ws, hws, rfl⟩ := (Call.runAll_eq_ok_iff_of_flatMap encodeEvent_eq_ok).mp h
  obtain ⟨id, deltas, usage, hdeltas, rfl⟩ := shaped_of_runAll hws hcompleted
  refine ⟨⟨_, _, _, _, congrArg (List.flatMap _) (runAll_messageWires hdeltas hws)⟩, ?_⟩
  have hlast : Call.runAll encodeEventValues (withLimits context limits)
      (.created id :: (deltas ++ [.usage usage]) ++ [.completed]) = .ok (c, ws) := by
    rw [List.cons_append, List.append_assoc]
    exact hws
  exact encodeEvent_terminal (terminal_of_completed hlast)

/-- A message that thinks, says something and makes a call. -/
def threeBlocks : Events :=
  [.created "r", .reasoningDelta "i" "x", .outputTextDelta "j" "y", .outputTextDelta "j" "z",
    .toolCallDelta "k" "c" "n" "", .usage ⟨1, 1, none, none, .empty⟩, .completed]

theorem encodeEvent_wellFormed_threeBlocks : ∃ c bytes,
    Call.runAll encodeEvent (.new signingContext) threeBlocks = .ok (c, bytes) ∧
    (∃ message delta usage blocks, bytes =
      (messageWires message delta usage blocks).flatMap fun e => encodeSse (some e.1) e.2) ∧
    ∀ e, encodeEvent e c = .error .invalidRequest c := by
  obtain ⟨r, hrun⟩ :=
    exists_of_isOk (x := Call.runAll encodeEvent (.new signingContext) threeBlocks)
      (by decide +kernel)
  exact ⟨r.1, r.2, hrun, encodeEvent_wellFormed hrun (by simp [threeBlocks])⟩

end Streams

end Wokcore.Protocols.Outbound
