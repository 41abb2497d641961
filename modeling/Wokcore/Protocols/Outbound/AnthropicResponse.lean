import Wokcore.Protocols.Outbound.AnthropicStream

/-!
# The streamed and the whole Anthropic message

The same events give a stream, block by block, and a whole message, by the aggregator. `reassemble`
is a client that puts a stream together again: it keeps the blocks by their number, adds up the
texts of their deltas and parses the arguments of a call at the end. Both sides come down to the
segments of neighbouring deltas of one item, so the content agrees.

The usages do not always agree. The last delta of a stream writes the output details from the
reasoning tokens alone, while the whole message keeps what the provider has reported there.
-/

set_option autoImplicit false

namespace Wokcore.Protocols.Outbound

open Lib Outcome Result Upstream BlockKind Json List Segment Option

open AnthropicCodec (WireEvent wire)

/-! ## A client of the stream -/

/-- A block as far as it has arrived. -/
structure PartialBlock where
  index : Json
  contentBlock : Json
  text : String
  signature : String

namespace PartialBlock

/-- One more delta. -/
def add (delta : Json) (block : PartialBlock) : PartialBlock :=
  let textAt key := (stringAt delta key).getD ""
  match stringAt delta "type" with
  | some "text_delta" => { block with text := block.text ++ textAt "text" }
  | some "thinking_delta" => { block with text := block.text ++ textAt "thinking" }
  | some "input_json_delta" => { block with text := block.text ++ textAt "partial_json" }
  | some "signature_delta" => { block with signature := textAt "signature" }
  | _ => block

/-- The block of the message. -/
def finish (F : FloatReader) (block : PartialBlock) : Result Json :=
  match stringAt block.contentBlock "type" with
  | some "text" => .ok (.obj [("type", .str "text"), ("text", .str block.text)])
  | some "thinking" =>
    .ok (.obj [("type", .str "thinking"), ("thinking", .str block.text),
      ("signature", .str block.signature)])
  | some "tool_use" => do
    let id ← orInvalid (stringAt block.contentBlock "id")
    let name ← orInvalid (stringAt block.contentBlock "name")
    let input ← readText F block.text
    return .obj [("type", .str "tool_use"), ("id", .str id), ("name", .str name), ("input", input)]
  | _ => .error .invalidRequest

end PartialBlock

/-- What one event does to the blocks. -/
def reassembleStep (blocks : List PartialBlock) (event : WireEvent) : List PartialBlock :=
  let document := event.2.tree
  match event.1 with
  | "content_block_start" =>
    blocks ++ [⟨(document.get? "index").getD .null, (document.get? "content_block").getD .null,
      "", ""⟩]
  | "content_block_delta" => blocks.map fun block =>
    if document.get? "index" = some block.index then block.add ((document.get? "delta").getD .null)
      else block
  | _ => blocks

/-- The content of a streamed message. -/
def reassemble (F : FloatReader) (events : List WireEvent) : Result Value := do
  let content ← (events.foldl reassembleStep []).mapM (PartialBlock.finish F)
  return (arr content).toValue

/-- The usage of the last `message_delta`. -/
def streamedUsage (events : List WireEvent) : Option Json :=
  (events.filterMap fun event => if event.1 = "message_delta" then event.2.tree.get? "usage"
    else none).getLast?

/-! ### Reading events -/

section Events

theorem get?_startWire (index : Nat) (contentBlock : Json) :
    (startWire index contentBlock).2.tree.get? "index" = some (.ofNat index) ∧
      (startWire index contentBlock).2.tree.get? "content_block" = some contentBlock.norm := by
  exact ⟨get?_norm_obj "index", get?_norm_obj "content_block"⟩

theorem step_start (blocks : List PartialBlock) (index : Nat) (contentBlock : Json) :
    reassembleStep blocks (startWire index contentBlock) =
      blocks ++ [⟨.ofNat index, contentBlock.norm, "", ""⟩] := by
  obtain ⟨hat, hblock⟩ := get?_startWire index contentBlock
  show blocks ++ [(⟨((startWire index contentBlock).2.tree.get? "index").getD .null,
    ((startWire index contentBlock).2.tree.get? "content_block").getD .null, "", ""⟩ :
    PartialBlock)] = _
  rw [hat, hblock]
  rfl

theorem get?_deltaWire (index : Nat) (delta : Json) :
    (deltaWire index delta).2.tree.get? "index" = some (.ofNat index) ∧
      (deltaWire index delta).2.tree.get? "delta" = some delta.norm := by
  exact ⟨get?_norm_obj "index", get?_norm_obj "delta"⟩

/-- A delta goes to the block with its number. -/
theorem step_delta {blocks : List PartialBlock} {block : PartialBlock} {index : Nat} (delta : Json)
    (hindex : block.index = .ofNat index) (hothers : ∀ b ∈ blocks, b.index ≠ .ofNat index) :
    reassembleStep (blocks ++ [block]) (deltaWire index delta) =
      blocks ++ [block.add delta.norm] := by
  obtain ⟨hat, hdelta⟩ := get?_deltaWire index delta
  show (blocks ++ [block]).map (fun b =>
    if (deltaWire index delta).2.tree.get? "index" = some b.index then
      b.add (((deltaWire index delta).2.tree.get? "delta").getD .null) else b) = _
  rw [hat, hdelta, map_append, map_singleton, if_pos (by rw [hindex]), getD_some]
  congr 1
  conv_rhs => rw [← map_id blocks]
  refine map_congr_left fun b hb => ?_
  rw [if_neg fun h => hothers b hb (some.inj h).symm, id]

theorem step_other {kind : String} (blocks : List PartialBlock) (fields : Members)
    (hstart : kind ≠ "content_block_start") (hdelta : kind ≠ "content_block_delta") :
    reassembleStep blocks (wire kind fields) = blocks := by
  unfold reassembleStep
  split
  next h => exact absurd h hstart
  next h => exact absurd h hdelta
  · rfl

/-- The type and the text of a delta. -/
theorem stringAt_delta (type key text : String) (h : key ≠ "type") :
    stringAt (obj [("type", .str type), (key, .str text)]).norm "type" = some type ∧
      stringAt (obj [("type", .str type), (key, .str text)]).norm key = some text := by
  have hnd : (([("type", .str type), (key, .str text)] : Members).map Prod.fst).Nodup := by
    simpa using h.symm
  rw [stringAt, stringAt, get?_norm_obj "type" hnd, get?_norm_obj key hnd, lookup_cons_ite,
    if_pos rfl, lookup_cons_ite, if_neg h, lookup_cons_ite, if_pos rfl]
  exact ⟨rfl, rfl⟩

/-- A delta of the kind of the block adds its text. -/
theorem add_delta (block : PartialBlock) (kind : BlockKind) (text : String) :
    block.add (kind.delta text).norm = { block with text := block.text ++ text } := by
  cases kind with
  | text =>
    obtain ⟨htype, htext⟩ := stringAt_delta "text_delta" "text" text (by decide)
    simp only [PartialBlock.add, delta, htype, htext, getD_some]
  | thinking signature =>
    obtain ⟨htype, htext⟩ := stringAt_delta "thinking_delta" "thinking" text (by decide)
    simp only [PartialBlock.add, delta, htype, htext, getD_some]
  | toolUse id name =>
    obtain ⟨htype, htext⟩ := stringAt_delta "input_json_delta" "partial_json" text (by decide)
    simp only [PartialBlock.add, delta, htype, htext, getD_some]

theorem add_signature (block : PartialBlock) (signature : String) :
    block.add (obj [("type", .str "signature_delta"), ("signature", .str signature)]).norm =
      { block with signature } := by
  obtain ⟨htype, htext⟩ := stringAt_delta "signature_delta" "signature" signature (by decide)
  simp only [PartialBlock.add, htype, htext, getD_some]

end Events

/-! ### Blocks -/

/-- A block that has arrived whole. -/
def arrived (index : Nat) (block : SentBlock) : PartialBlock where
  index := .ofNat index
  contentBlock := block.key.contentBlock.norm
  text := String.join block.items
  signature := block.key.signature

section Blocks

variable {blocks : List PartialBlock} {index : Nat}

theorem foldl_deltas (kind : BlockKind) (texts : List String) {block : PartialBlock}
    (hindex : block.index = .ofNat index) (hothers : ∀ b ∈ blocks, b.index ≠ .ofNat index) :
    (texts.map fun text => deltaWire index (kind.delta text)).foldl reassembleStep
      (blocks ++ [block]) = blocks ++ [{ block with text := block.text ++ String.join texts }] := by
  induction texts generalizing block with
  | nil => simp
  | cons text texts ih =>
    rw [map_cons, foldl_cons, step_delta _ hindex hothers, add_delta]
    refine (ih (show ({ block with text := block.text ++ text } : PartialBlock).index =
      _ from hindex)).trans ?_
    rw [String.join_cons, String.append_assoc]

theorem foldl_signed (kind : BlockKind) (block : PartialBlock) (hindex : block.index = .ofNat index)
    (hothers : ∀ b ∈ blocks, b.index ≠ .ofNat index) (hsignature : block.signature = "") :
    (kind.signed index).foldl reassembleStep (blocks ++ [block]) =
      blocks ++ [{ block with signature := kind.signature }] := by
  cases kind with
  | thinking signature =>
    rw [signed, foldl_cons, foldl_nil, step_delta _ hindex hothers, add_signature]
    rfl
  | text | toolUse =>
    simp only [signed, foldl_nil, signature]
    rw [← hsignature]

/-- **One block.** -/
theorem foldl_blockWires (block : SentBlock) (hothers : ∀ b ∈ blocks, b.index ≠ .ofNat index) :
    (blockWires index block).foldl reassembleStep blocks = blocks ++ [arrived index block] := by
  have hopen : (openWires index block).foldl reassembleStep blocks =
      blocks ++ [⟨.ofNat index, block.key.contentBlock.norm, String.join block.items, ""⟩] := by
    rw [openWires, foldl_cons, step_start]
    refine (foldl_deltas _ _ rfl hothers).trans ?_
    rw [String.empty_append]
  rw [blockWires, foldl_append, foldl_append, hopen]
  have hsigned := foldl_signed block.key
    ⟨.ofNat index, block.key.contentBlock.norm, String.join block.items, ""⟩ rfl hothers rfl
  rw [hsigned, foldl_cons, foldl_nil, stopWire, step_other _ _ (by decide) (by decide)]
  rfl

end Blocks

/-- **The content.** Every block arrives under its number. -/
theorem foldl_contentWires (blocks : List SentBlock) (h : blocks.length ≤ 2 ^ 64) :
    (contentWires blocks).foldl reassembleStep [] = blocks.zipIdx.map fun block =>
    arrived block.2 block.1 := by
  induction blocks using reverseRecOn with
  | nil => rfl
  | append_singleton blocks block ih =>
    rw [length_append, length_singleton] at h
    rw [contentWires_concat, foldl_append, ih (by omega), foldl_blockWires]
    · simp [zipIdx_append]
    · intro b hb
      obtain ⟨⟨segment, i⟩, hmem, rfl⟩ := mem_map.mp hb
      have hlt : i < blocks.length := by
        have := (mem_zipIdx hmem).2.1
        omega
      intro heq
      have := ofNat_inj (by omega) (by omega) heq
      omega

theorem foldl_messageWires (message delta usage : Json) (blocks : List SentBlock)
    (h : blocks.length ≤ 2 ^ 64) : (messageWires message delta usage blocks).foldl reassembleStep
      [] = blocks.zipIdx.map fun block => arrived block.2 block.1 := by
  rw [messageWires, foldl_cons, step_other _ _ (by decide) (by decide), foldl_append,
    foldl_contentWires _ h, foldl_cons, step_other _ _ (by decide) (by decide), foldl_cons,
    step_other _ _ (by decide) (by decide), foldl_nil]

theorem kind_of_mem_contentWires {blocks : List SentBlock} {event : WireEvent}
    (h : event ∈ contentWires blocks) : event.1 ≠ "message_delta" := by
  obtain ⟨⟨block, index⟩, -, hevent⟩ := mem_flatMap.mp h
  simp only [blockWires, openWires, mem_append, mem_cons, List.mem_map, not_mem_nil,
    or_false] at hevent
  rcases hevent with ((rfl | ⟨text, -, rfl⟩) | hsigned) | rfl
  · simp [startWire, wire]
  · simp [deltaWire, wire]
  · cases hkey : block.key with
    | thinking signature =>
      rw [hkey, signed, mem_singleton] at hsigned
      subst hsigned
      simp [deltaWire, wire]
    | text | toolUse =>
      rw [hkey] at hsigned
      cases hsigned
  · simp [stopWire, wire]

theorem streamedUsage_messageWires (message delta : Json) (usage : Value)
    (blocks : List SentBlock) :
    streamedUsage (messageWires message delta usage.tree blocks) = some usage.tree := by
  have hcontent : (contentWires blocks).filterMap (fun event =>
      if event.1 = "message_delta" then event.2.tree.get? "usage" else none) = [] := by
    rw [filterMap_eq_nil_iff]
    intro event hevent
    rw [if_neg (kind_of_mem_contentWires hevent)]
  have husage : (wire "message_delta" [("delta", delta), ("usage", usage.tree)]).2.tree.get?
      "usage" = some usage.tree.norm := get?_norm_obj "usage"
  rw [usage.normal] at husage
  have hlast :
      (if (wire "message_delta" [("delta", delta), ("usage", usage.tree)]).1 = "message_delta" then
        (wire "message_delta" [("delta", delta), ("usage", usage.tree)]).2.tree.get? "usage"
        else none) = some usage.tree := (if_pos rfl).trans husage
  rw [streamedUsage, messageWires, filterMap_cons_none (by simp [wire]), filterMap_append, hcontent,
    nil_append, filterMap_cons, hlast]
  rfl

/-! ## The aggregator -/

/-- The output of a block, with what its deltas add up to. -/
def BlockKey.output (text : String) : BlockKey → AggregateOutput
  | .text itemId => .text itemId text
  | .thinking itemId => .reasoning itemId text
  | .toolUse itemId callId name => .tool itemId callId name text

def wholeOutput (block : ItemBlock) : AggregateOutput := block.key.output (String.join block.items)

namespace AnthropicResponseAggregator

variable {a b : AnthropicResponseAggregator} {blocks : List ItemBlock} {e : CanonicalEvent}

theorem extendLast_output (before : List AggregateOutput) (k l : BlockKey) (s t : String) :
    extendLast (before ++ [k.output s]) (l.output t) =
      if k = l then some (before ++ [k.output (s ++ t)]) else none := by
  cases k <;> cases l <;> simp [extendLast, BlockKey.output]

/-- What the aggregator keeps while deltas come in. -/
structure Keeps (a b : AnthropicResponseAggregator) : Prop where
  context : b.context = a.context
  responseId : b.responseId = a.responseId
  usage : b.usage = a.usage
  failed : b.failed = a.failed

theorem pushOutput_eq_ok {item : AggregateOutput} (h : a.pushOutput item = .ok b) :
    b.outputs = a.outputs ++ [item] ∧ Keeps a b := by
  cases item with
  | text itemId text | reasoning itemId text =>
    simp only [pushOutput, registerItem, do_ok] at h
    obtain ⟨_, ⟨-, -, rfl⟩, rfl⟩ := h
    exact ⟨rfl, rfl, rfl, rfl, rfl⟩
  | tool itemId callId name text =>
    simp only [pushOutput, registerItem, do_ok] at h
    obtain ⟨_, ⟨-, -, rfl⟩, -, rfl⟩ := h
    exact ⟨rfl, rfl, rfl, rfl, rfl⟩

section

variable (houtputs : a.outputs = blocks.map wholeOutput)
include houtputs

/-- The end of all three `append` functions, block by block. -/
theorem appendItem_eq_ok {size : Nat} (h : a.appendItem ((blockKey e).output (deltaText e)) size =
    .ok b) :
    b.outputs = (addDelta blocks e).map wholeOutput ∧ Keeps a b := by
  simp only [appendItem, do_ok] at h
  obtain ⟨d, hd, rfl⟩ := h
  have hpush : extendLast a.outputs ((blockKey e).output (deltaText e)) = none →
      addDelta blocks e = blocks ++ [⟨blockKey e, deltaText e, []⟩] →
      d.outputs = (addDelta blocks e).map wholeOutput ∧ Keeps a d := by
    intro hnone hadd
    rw [extendOrPush, hnone] at hd
    obtain ⟨hout, hkeeps⟩ := pushOutput_eq_ok hd
    refine ⟨?_, hkeeps⟩
    rw [hout, hadd, map_append, houtputs]
    simp [wholeOutput, items]
  suffices hsame : d.outputs = (addDelta blocks e).map wholeOutput ∧ Keeps a d from
    ⟨hsame.1, hsame.2.context, hsame.2.responseId, hsame.2.usage, hsame.2.failed⟩
  rcases eq_nil_or_concat blocks with rfl | ⟨before, last, rfl⟩
  · refine hpush ?_ rfl
    rw [houtputs]
    rfl
  · rw [concat_eq_append] at houtputs hpush ⊢
    have hlast : a.outputs = before.map wholeOutput ++
        [last.key.output (String.join last.items)] := by
      rw [houtputs, map_append]
      rfl
    have hextend := extendLast_output (before.map wholeOutput) last.key (blockKey e)
      (String.join last.items) (deltaText e)
    rw [← hlast] at hextend
    by_cases hkey : last.key = blockKey e
    · rw [if_pos hkey] at hextend
      rw [extendOrPush, hextend] at hd
      cases hd
      refine ⟨?_, rfl, rfl, rfl, rfl⟩
      rw [addDelta, ← hkey, addItem_same, map_append, map_singleton, wholeOutput, items_extend,
        String.join_append]
      simp [extend]
    · rw [if_neg hkey] at hextend
      exact hpush hextend (addItem_new before hkey _)

/-- **One delta.** -/
theorem transition_delta (hdelta : e.isDelta = true) (h : a.transition e = .ok b) :
    b.outputs = (addDelta blocks e).map wholeOutput ∧ Keeps a b := by
  unfold transition at h
  rw [do_eq_ok] at h
  obtain ⟨-, -, h⟩ := h
  cases e with
  | outputTextDelta itemId delta =>
    simp only [appendText, do_ok] at h
    exact appendItem_eq_ok houtputs h.2.2
  | reasoningDelta itemId delta =>
    simp only [appendReasoning, do_ok] at h
    obtain ⟨-, -, h⟩ := h
    split at h
    · exact appendItem_eq_ok houtputs h
    · cases h
  | toolCallDelta itemId callId name delta =>
    simp only [appendTool, do_ok] at h
    exact appendItem_eq_ok houtputs h.2.2.2.2
  | _ => cases hdelta

/-- **Deltas.** -/
theorem foldlM_deltas {deltas : Events} (hdeltas : AllDeltas deltas)
    (h : deltas.foldlM transition a = .ok b) :
    b.outputs = (deltas.foldl addDelta blocks).map wholeOutput ∧ Keeps a b := by
  induction deltas generalizing a blocks with
  | nil =>
    cases h
    exact ⟨houtputs, rfl, rfl, rfl, rfl⟩
  | cons e deltas ih =>
    rw [foldlM_cons, do_eq_ok] at h
    obtain ⟨d, hd, hrest⟩ := h
    obtain ⟨hout, hkeeps⟩ := transition_delta houtputs (hdeltas e (by simp)) hd
    obtain ⟨hout', hkeeps'⟩ := ih hout (fun e' he' => hdeltas e' (by simp [he'])) hrest
    exact ⟨hout', hkeeps'.context.trans hkeeps.context, hkeeps'.responseId.trans hkeeps.responseId,
      hkeeps'.usage.trans hkeeps.usage, hkeeps'.failed.trans hkeeps.failed⟩

end

/-- **A whole message** is the blocks of its deltas, and the usage as it was reported. -/
theorem encode_eq_ok {F : FloatReader} {context : AnthropicEncodeContext} {limits : AnthropicLimits}
    {id : String} {deltas : Events} {usage : Usage} {value : Value} (hdeltas : AllDeltas deltas)
    (h : (new context limits).encode F (whole id deltas usage) = .ok value) :
    ∃ a content, a.context = context ∧ ((blocksOf deltas).map wholeOutput).mapM (contentBlock F a) =
      .ok content ∧ value.tree.get? "content" = some (arr content).norm ∧
      value.tree.get? "usage" = some (anthropicUsageValue usage).tree := by
  simp only [encode, do_ok, foldlM_cons, foldlM_append, foldlM_nil] at h
  obtain ⟨-, _, ⟨a₁, hcreated, a₂, hrun, a₃, husage, last, hcompleted, rfl⟩, -, hvalue⟩ := h
  have hcreated' : a₁ = { new context limits with responseId := some id } := by
    simp only [transition, created, do_ok] at hcreated
    exact hcreated.2.2.2.symm
  subst hcreated'
  have hstart : ({ new context limits with responseId := some id } :
      AnthropicResponseAggregator).outputs = ([] : List ItemBlock).map wholeOutput := rfl
  obtain ⟨houtputs, hkeeps⟩ := foldlM_deltas hstart hdeltas hrun
  have husage' : a₃ = { a₂ with usage := some usage } := by
    simp only [transition, setUsage, do_ok] at husage
    exact husage.2.2.2.2.symm
  subst husage'
  have hcompleted' : last = { a₂ with usage := some usage, terminal := true } := by
    simp only [transition, completed, do_ok] at hcompleted
    exact hcompleted.2.2.2.symm
  subst hcompleted'
  have hfailed : a₂.failed = none := hkeeps.failed
  simp only [hfailed] at hvalue
  simp only [responseValue, do_ok, checks_ok] at hvalue
  obtain ⟨responseId, -, _, hused, content, hcontent, rfl⟩ := hvalue
  cases hused
  refine ⟨_, content, hkeeps.context, ?_, ?_, ?_⟩
  · rw [houtputs] at hcontent
    exact hcontent
  · refine (get?_norm_obj "content" (orInsertAll_nodup (by simp) _)).trans ?_
    rfl
  · refine (get?_norm_obj "usage" (orInsertAll_nodup (by simp) _)).trans ?_
    rw [lookup_orInsertAll rfl, map_some, Value.normal]

end AnthropicResponseAggregator

/-! ## The content -/

/-- A block that has arrived is the block of the whole message. -/
theorem finish_arrived {F : FloatReader} {a : AnthropicResponseAggregator} {block : ItemBlock}
    {j : Json} (index : Nat) (h : a.contentBlock F (wholeOutput block) = .ok j) :
    (arrived index (block.mapKey (·.kind a.context.response))).finish F = .ok j := by
  obtain ⟨key, first, rest⟩ := block
  cases key with
  | text itemId =>
    cases h
    rfl
  | thinking itemId =>
    simp only [wholeOutput, BlockKey.output, AnthropicResponseAggregator.contentBlock, do_ok] at h
    obtain ⟨signature, hsignature, rfl⟩ := h
    have htype : stringAt (obj [("type", .str "thinking"), ("thinking", .str ""),
        ("signature", .str "")]).norm "type" = some "thinking" := by
      rfl
    rw [AnthropicResponseTemplate.signatureOf] at hsignature
    split at hsignature
    next found hfound =>
      cases hsignature
      simp only [PartialBlock.finish, arrived, mapKey, BlockKey.kind, contentBlock, htype, hfound,
        getD_some]
      rfl
    · cases hsignature
  | toolUse itemId callId name =>
    simp only [wholeOutput, BlockKey.output, AnthropicResponseAggregator.contentBlock, do_ok] at h
    obtain ⟨input, hinput, -, rfl⟩ := h
    have hat : ∀ key, stringAt (toolUse callId name).contentBlock.norm key =
        (([("type", .str "tool_use"), ("id", .str callId), ("name", .str name),
        ("input", .obj [])] :
          Members).lookup key).bind fun j => j.norm.asStr := by
      intro key
      rw [stringAt, contentBlock, get?_norm_obj key, bind_map]
      rfl
    have htype : stringAt (toolUse callId name).contentBlock.norm "type" = some "tool_use" :=
      hat "type"
    have hid : stringAt (toolUse callId name).contentBlock.norm "id" = some callId := hat "id"
    have hname : stringAt (toolUse callId name).contentBlock.norm "name" = some name :=
      hat "name"
    have hinput' : readText F (String.join (first :: rest)) = .ok input := hinput
    simp only [PartialBlock.finish, arrived, mapKey, BlockKey.kind, htype, hid, hname, items,
      orInvalid, hinput']
    rfl

/-- **The content** of a stream is the content of the whole message. -/
theorem reassemble_eq_ok {F : FloatReader} {a : AnthropicResponseAggregator}
    {blocks : List ItemBlock} {content : List Json} (message delta usage : Json)
    (hlength : blocks.length ≤ 2 ^ 64)
    (h : (blocks.map wholeOutput).mapM (a.contentBlock F) = .ok content) :
    reassemble F (messageWires message delta usage
      (blocks.map fun b => b.mapKey (·.kind a.context.response))) = .ok (arr content).toValue := by
  rw [reassemble, foldl_messageWires _ _ _ _ (by rw [length_map]; exact hlength)]
  suffices hall :
    ((blocks.map fun b => b.mapKey (·.kind a.context.response)).zipIdx.map fun block =>
      arrived block.2 block.1).mapM (PartialBlock.finish F) = .ok content by
    rw [hall]
    rfl
  rw [mapM_eq_ok, forall₂_map_left_iff, forall₂_iff_get] at h
  rw [mapM_eq_ok, zipIdx_map, List.map_map, forall₂_map_left_iff, forall₂_iff_get]
  refine ⟨by simpa using h.1, ?_⟩
  intro i hi hi'
  have hblock := h.2 i (by simpa using hi) hi'
  simp only [get_eq_getElem, getElem_zipIdx] at hblock ⊢
  exact finish_arrived _ hblock

/-! ## The usage -/

variable (usage : Usage) {key : String}

/-- The details of the output a provider has reported in its own words. -/
def reportedDetails : Members :=
  ((usage.extensions.get? "output_tokens_details").bind fun v => v.tree.asObject).getD []

/-- If the reasoning tokens are reported, the provider has reported no other details of the
    output. -/
def PlainDetails : Prop :=
  usage.reasoningTokens = none ∨ ∀ m ∈ reportedDetails usage, m.1 = "thinking_tokens"

theorem sorted_reportedDetails : SortedKeys (reportedDetails usage) := by
  rw [reportedDetails]
  cases hget : usage.extensions.get? "output_tokens_details" with
  | none => exact .nil
  | some v =>
    cases hobj : v.tree with
    | obj fields =>
      have hnormal := v.normal
      rw [hobj, Read.norm_obj, obj.injEq] at hnormal
      rw [bind_some, hobj, asObject, getD_some, ← hnormal]
      exact ofEntries_sorted _
    | _ =>
      rw [bind_some, hobj]
      exact .nil

/-- Written as their only detail, the reasoning tokens are all that is reported only if nothing else
    was. -/
theorem norm_outputDetails_eq_iff (tokens : UInt64) :
    (outputDetails usage tokens).norm = (obj [("thinking_tokens", .ofWord tokens)]).norm ↔
      ∀ m ∈ reportedDetails usage, m.1 = "thinking_tokens" := by
  have hsorted := sorted_reportedDetails usage
  constructor
  · intro h m hm
    by_contra hkey
    have hget : (obj (insertKey "thinking_tokens" (.ofWord tokens)
        (reportedDetails usage))).norm.get? m.1 =
          (obj [("thinking_tokens", .ofWord tokens)]).norm.get? m.1 :=
          congrArg (fun j => j.get? m.1) h
    have hnd := (hsorted.insertKey "thinking_tokens" (.ofWord tokens)).nodup_keys
    rw [get?_norm_obj m.1 hnd, get?_norm_obj m.1, lookup_insertKey, if_neg hkey, lookup_cons_ite,
      if_neg hkey, lookup_nil, map_none, map_eq_none_iff] at hget
    have := lookup_eq_none_iff.mp hget m hm
    simp at this
  · intro h
    rw [outputDetails, ← reportedDetails]
    match hdetails : reportedDetails usage with
    | [] => rfl
    | [m] =>
      have hm : m.1 = "thinking_tokens" := h m (by simp [hdetails])
      rw [← hm, insertKey]
      simp
    | m :: m' :: more =>
      rw [hdetails] at hsorted h
      have hlt := (pairwise_cons.mp hsorted).1 m' (by simp)
      rw [h m (by simp), h m' (by simp)] at hlt
      exact absurd hlt (String.lt_irrefl _)

theorem lookup_details {usage : Usage} {tokens : UInt64} (h : usage.reasoningTokens = some tokens) :
    (finalUsageFields usage).lookup "output_tokens_details" =
      some (.obj [("thinking_tokens", .ofWord tokens)]) ∧
      (anthropicUsageFields usage).lookup "output_tokens_details" =
        some (outputDetails usage tokens) := by
  simp [finalUsageFields, anthropicUsageFields, h, lookup_cons_ite]

/-- Under any other key about the output the members of the two usages are the same. -/
theorem lookup_usageFields {usage : Usage} (h : isOutputKey key = true)
    (hdetails : key = "output_tokens_details" → usage.reasoningTokens = none) :
    (finalUsageFields usage).lookup key = (anthropicUsageFields usage).lookup key := by
  have hother : ∀ other, isOutputKey other = false → key ≠ other := by
    rintro other hother rfl
    rw [h] at hother
    cases hother
  have hinput := hother "input_tokens" (by decide)
  have hcreation := hother "cache_creation_input_tokens" (by decide)
  have hread := hother "cache_read_input_tokens" (by decide)
  cases hreasoning : usage.reasoningTokens with
  | none =>
    simp [finalUsageFields, anthropicUsageFields, hreasoning, lookup_cons_ite, hinput,
      hcreation, hread]
  | some tokens =>
    have hkey : key ≠ "output_tokens_details" := fun hkey => by simp [hdetails hkey] at hreasoning
    simp [finalUsageFields, anthropicUsageFields, hreasoning, lookup_cons_ite, hinput, hcreation,
      hread, hkey]

theorem get?_finalUsageValue (h : isOutputKey key = true) : (finalUsageValue usage).tree.get? key =
      (((finalUsageFields usage).lookup key).or ((usage.extensions.get? key).map Value.tree)).map
      norm := by
  refine (get?_norm_obj key (nodup_append_entries (nodup_finalUsageFields usage) _ fun e he =>
    ?_)).trans ?_
  · simp only [Bool.and_eq_true, Bool.not_eq_true'] at he
    simpa using he.2
  · rw [lookup_append_entries]
    intro hfree v
    rw [h, Bool.true_and, contains_eq_false_of_lookup hfree]
    rfl

theorem get?_anthropicUsageValue (key : String) :
    (anthropicUsageValue usage).tree.get? key =
      (((anthropicUsageFields usage).lookup key).or
        ((usage.extensions.get? key).map Value.tree)).map norm := by
  refine (get?_norm_obj key (orInsertAll_nodup (nodup_anthropicUsageFields usage) _)).trans ?_
  rw [orInsertAll, lookup_append_entries]
  intro hfree v
  rw [contains_eq_false_of_lookup hfree]
  rfl

/-- **The output members** of the two usages agree if the reasoning tokens are the only detail. -/
theorem outputMembers_agree_iff :
    (∀ key member, isOutputKey key = true → (finalUsageValue usage).tree.get? key = some member →
      (anthropicUsageValue usage).tree.get? key = some member) ↔ PlainDetails usage := by
  constructor
  · intro h
    cases hreasoning : usage.reasoningTokens with
    | none => exact .inl hreasoning
    | some tokens =>
      right
      have hkey : isOutputKey "output_tokens_details" = true := by decide
      obtain ⟨hfinal, hwhole⟩ := lookup_details hreasoning
      have hsame := h _ (obj [("thinking_tokens", .ofWord tokens)]).norm hkey (by
        rw [get?_finalUsageValue usage hkey, hfinal]
        rfl)
      rw [get?_anthropicUsageValue, hwhole] at hsame
      rw [← norm_outputDetails_eq_iff usage tokens]
      exact some.inj hsame
  · intro h key member hkey hmember
    rw [← hmember, get?_finalUsageValue usage hkey, get?_anthropicUsageValue]
    by_cases hdetails : key = "output_tokens_details" → usage.reasoningTokens = none
    · rw [lookup_usageFields hkey hdetails]
    · obtain ⟨rfl, hsome⟩ := Classical.not_imp.mp hdetails
      obtain ⟨tokens, hreasoning⟩ := ne_none_iff_exists'.mp hsome
      obtain ⟨hfinal, hwhole⟩ := lookup_details hreasoning
      rw [hfinal, hwhole, some_or, some_or, map_some, map_some,
        (norm_outputDetails_eq_iff usage tokens).mpr (h.resolve_left hsome)]

/-! ## Both messages -/

section Messages

open AnthropicCodec

variable {F : FloatReader} {context : AnthropicEncodeContext} {limits wholeLimits : AnthropicLimits}
  {events : Events} {c : AnthropicCodec} {value : Value}

/-- The usage members of a stream that are about the output are those of a whole message. -/
def OutputUsageAgrees (events : List WireEvent) (message : Value) : Prop :=
  ∃ streamed whole, streamedUsage events = some streamed ∧ message.tree.get? "usage" = some whole ∧
    ∀ key member, isOutputKey key = true → streamed.get? key = some member →
    whole.get? key = some member

/-- **The streamed and the whole message.** Their contents are the same; the members of their usages
    about the output are the same exactly if no details go with the reasoning tokens. -/
theorem reassembled_iff {bytes : Bytes} (hlimits : limits.maxOutputItems ≤ u64Max)
    (hstream : Call.runAll encodeEvent (withLimits context limits) events = .ok (c, bytes))
    (hcompleted : .completed ∈ events)
    (hwhole : (AnthropicResponseAggregator.new context wholeLimits).encode F events = .ok value) :
    (∃ content, reassemble F (Call.returned encodeEventValues (withLimits context limits) events) =
      .ok content ∧ value.tree.get? "content" = some content.tree) ∧
    (OutputUsageAgrees (Call.returned encodeEventValues (withLimits context limits) events) value ↔
      ∀ usage, .usage usage ∈ events → PlainDetails usage) := by
  obtain ⟨ws, hws, rfl⟩ := (Call.runAll_eq_ok_iff_of_flatMap encodeEvent_eq_ok).mp hstream
  obtain ⟨id, deltas, usage, hdeltas, rfl⟩ := shaped_of_runAll hws hcompleted
  have hlength : (blocksOf deltas).length ≤ 2 ^ 64 :=
    Nat.le_trans (length_blocksOf_le hdeltas hws) (Nat.le_trans hlimits (by decide))
  obtain ⟨a, content, rfl, hcontent, hget, husage⟩ :=
    AnthropicResponseAggregator.encode_eq_ok hdeltas hwhole
  rw [Call.returned_of_runAll hws, runAll_messageWires hdeltas hws]
  refine ⟨⟨_, reassemble_eq_ok _ _ _ hlength hcontent, hget⟩, ?_⟩
  have hevents :
      (∀ u, .usage u ∈ CanonicalEvent.created id :: (deltas ++ [.usage usage, .completed]) →
        PlainDetails u) ↔ PlainDetails usage := by
    refine ⟨fun h => h usage (by simp), ?_⟩
    intro h u hu
    rw [mem_cons, mem_append] at hu
    rcases hu with hu | hu | hu
    · cases hu
    · cases hdeltas _ hu
    · simp only [mem_cons, CanonicalEvent.usage.injEq, reduceCtorEq, not_mem_nil, or_false] at hu
      rwa [hu]
  rw [hevents, ← outputMembers_agree_iff]
  refine ⟨?_, fun h => ⟨_, _, streamedUsage_messageWires _ _ _ _, husage, h⟩⟩
  rintro ⟨streamed, whole, hstreamed, hmember, hagree⟩
  rw [streamedUsage_messageWires] at hstreamed
  rw [husage] at hmember
  cases hstreamed
  cases hmember
  exact hagree

/-- A call in two pieces, and a usage with the reasoning tokens and the given extensions. -/
def oneCall (extensions : Extensions) : Events :=
  [.created "r", .toolCallDelta "k" "c" "n" "\x7b", .toolCallDelta "k" "c" "n" "\x7d",
    .usage ⟨1, 1, none, some 1, extensions⟩, .completed]

theorem reassembled_iff_oneCall : ∃ c bytes value,
    Call.runAll encodeEvent (.new signingContext) (oneCall .empty) = .ok (c, bytes) ∧
    encodeResponse exactFloats signingContext (oneCall .empty) = .ok value ∧
    (∃ content, reassemble exactFloats (Call.returned encodeEventValues (.new signingContext)
      (oneCall .empty)) = .ok content ∧ value.tree.get? "content" = some content.tree) ∧
    (OutputUsageAgrees (Call.returned encodeEventValues (.new signingContext)
      (oneCall .empty)) value ↔ ∀ usage, .usage usage ∈ oneCall .empty → PlainDetails usage) := by
  obtain ⟨r, hrun⟩ :=
    exists_of_isOk (x := Call.runAll encodeEvent (.new signingContext) (oneCall .empty))
      (by decide +kernel)
  obtain ⟨value, hvalue⟩ :=
    exists_of_isOk (x := encodeResponse exactFloats signingContext (oneCall .empty))
      (by decide +kernel)
  exact ⟨r.1, r.2, value, hrun, hvalue, reassembled_iff (by decide) hrun (by simp [oneCall]) hvalue⟩

/-- Details of the output beside the reasoning tokens. -/
def audioDetails : Extensions :=
  EntryMap.empty.insert "output_tokens_details" (obj [("audio_tokens", .ofNat 1)]).toValue

/-- The last delta of the stream leaves out the other details. -/
theorem outputUsage_differs : ∃ c bytes value,
    Call.runAll encodeEvent (.new signingContext) (oneCall audioDetails) = .ok (c, bytes) ∧
    encodeResponse exactFloats signingContext (oneCall audioDetails) = .ok value ∧
    ¬ OutputUsageAgrees (Call.returned encodeEventValues (.new signingContext)
      (oneCall audioDetails)) value := by
  have hmember :
      (streamedUsage (Call.returned encodeEventValues (.new signingContext)
        (oneCall audioDetails))).bind (·.get? "output_tokens_details") =
          some (.obj [("thinking_tokens", .ofWord 1)]) := by
    decide +kernel
  have hdiffers : ((encodeResponse exactFloats signingContext (oneCall audioDetails)).toOption.bind
      (·.tree.get? "usage")).bind (·.get? "output_tokens_details") ≠
        some (.obj [("thinking_tokens", .ofWord 1)]) := by
    decide +kernel
  obtain ⟨r, hrun⟩ :=
    exists_of_isOk (x := Call.runAll encodeEvent (.new signingContext) (oneCall audioDetails))
      (by decide +kernel)
  obtain ⟨value, hvalue⟩ :=
    exists_of_isOk (x := encodeResponse exactFloats signingContext (oneCall audioDetails))
      (by decide +kernel)
  refine ⟨r.1, r.2, value, hrun, hvalue, ?_⟩
  rintro ⟨streamed, whole, hstreamed, hused, hagree⟩
  rw [hstreamed] at hmember
  rw [hvalue] at hdiffers
  refine hdiffers ?_
  show (value.tree.get? "usage").bind _ = _
  rw [hused]
  exact hagree _ _ (by decide) hmember

end Messages

end Wokcore.Protocols.Outbound
