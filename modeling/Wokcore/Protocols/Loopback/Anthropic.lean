import Wokcore.Protocols.Loopback.Transport
import Wokcore.Protocols.Outbound.AnthropicBlocks

/-!
# The Anthropic codec read by the Anthropic decoder

The codec sends a message as blocks, one after the other: each delta belongs to the block that is
open, and a delta of another item closes it and opens the next one. The decoder names items after
the numbers of their blocks (`inBlocks`). Text and calls come back that way. A thinking block does
not: the codec closes it with a `signature_delta`, which the decoder takes for a delta of the wrong
kind.
-/

set_option autoImplicit false

namespace Wokcore.Protocols.Loopback

open Lib Protocols.Stream Upstream Outbound List UpstreamStreamDecoder Upstream.AnthropicStream
  Outcome Result
variable {r : AnthropicStream × Events} {ws : List WireEvent}

/-! ## Items and blocks -/

/-- The delta, of another item. -/
def withItem (itemId : String) : CanonicalEvent → CanonicalEvent
  | .outputTextDelta _ delta => .outputTextDelta itemId delta
  | .reasoningDelta _ delta => .reasoningDelta itemId delta
  | .toolCallDelta _ callId name delta => .toolCallDelta itemId callId name delta
  | e => e

/-- The items of deltas, in the order they begin. -/
def noteItem (items : List String) (e : CanonicalEvent) : List String :=
  if itemIdOf e ∈ items then items else items ++ [itemIdOf e]

def blockItems (deltas : Events) : List String := deltas.foldl noteItem []

abbrev blockName (i : Nat) : String := numbered "anthropic_item_" i

/-- The delta under the name of its block. -/
def inBlock (items : List String) (e : CanonicalEvent) : CanonicalEvent :=
  withItem (numbered "anthropic_item_" (items.idxOf (itemIdOf e))) e

/-- The deltas under the names of their blocks. -/
def inBlocks (deltas : Events) : Events := deltas.map (inBlock (blockItems deltas))

/-- What the decoder takes of an event, apart from the name of its item. -/
def Deliverable (limits : UpstreamLimits) : CanonicalEvent → Prop
  | .created responseId => validateIdentifier responseId limits.maxIdentifierBytes = .ok ()
  | .outputTextDelta _ delta => delta.utf8ByteSize ≤ limits.maxTextDeltaBytes
  | .reasoningDelta _ _ => False
  | .toolCallDelta _ callId name delta =>
    validateIdentifier callId limits.maxIdentifierBytes = .ok () ∧
    validateIdentifier name limits.maxIdentifierBytes = .ok () ∧
      delta.utf8ByteSize ≤ limits.maxToolArgumentBytes
  | _ => True

/-! ## Frames in the decoder -/

/-- The kinds of deltas that the decoder can take. -/
def isPlain : CanonicalEvent → Bool
  | .outputTextDelta .. => true
  | .toolCallDelta .. => true
  | _ => false

/-- The block of a delta as the decoder remembers it. -/
def knownBlock (e : CanonicalEvent) (i : Nat) : AnthropicBlock :=
  match e with
  | .toolCallDelta _ callId name _ => .tool (blockName i) callId name
  | _ => .text (blockName i)

namespace AnthropicStream

open Outbound.AnthropicCodec (wire)

variable {F : FloatReader} {limits : UpstreamLimits} {q : AnthropicStream × Events} {w : Json}
  {i : Nat} {e : CanonicalEvent} {usage : Usage} {context : AnthropicEncodeContext} {kind : String}
  {fields : Members} {closing : List WireEvent} {ds : List Json}

theorem readAs_wire (h : Carried F limits (wire kind fields).2 w) :
    ReadAs F (.obj (("type", .str kind) :: fields)) w := readAs_toValue.mp h.document

theorem decodeEvent_wire (h : Carried F limits (wire kind fields).2 w)
    (hnd : ((("type", Json.str kind) :: fields).map Prod.fst).Nodup := by simp) :
    decodeEvent limits q w = q.1.decodeKind limits q.2 w (.ofString kind) := by
  unfold decodeEvent requiredString
  rw [stringAt_of_readAs (readAs_wire h) rfl hnd]
  rfl

theorem requiredIndex_of_readAs {fs : Members} {maximum : Nat} (h : ReadAs F (.obj fs) w)
    (hkey : fs.lookup "index" = some (.ofNat i)) (hword : i < 2 ^ 64) (hmax : i < maximum)
    (hnd : (fs.map Prod.fst).Nodup := by simp) : requiredIndex w maximum = .ok i := by
  have hindex := indexAt_of_readAs h hkey hword hnd
  have hfits : requireThat (!decide (i ≥ maximum)) = .ok () := by
    simpa using hmax
  rw [requiredIndex, hindex]
  show (do requireThat (!decide (i ≥ maximum)); return i) = _
  rw [hfits]
  rfl

theorem decode_stop (h : Carried F limits (wire "content_block_stop" [("index", .ofNat i)]).2 w) :
    decodeEvent limits q w = .ok q := by
  rw [decodeEvent_wire h]
  rfl

/-- Closing a block that is no thinking block changes nothing. -/
theorem decode_closing {c : AnthropicCodec} (hclosing : c.closing = .ok closing)
    (hplain : ∀ itemId i, c.active ≠ some (.reasoning itemId i))
    (h : Forall₂ (fun e => Carried F limits e.2) closing ds) :
    ds.foldlM (decodeEvent limits) q = .ok q := by
  unfold AnthropicCodec.closing at hclosing
  cases hactive : c.active with
  | none =>
    rw [hactive] at hclosing
    cases hclosing
    cases h
    rfl
  | some block =>
    have hstop : closing = [wire "content_block_stop" [("index", .ofNat block.index)]] := by
      rw [hactive] at hclosing
      cases block with
      | text | tool => exact (Except.ok.inj hclosing).symm
      | reasoning itemId i => exact absurd hactive (hplain itemId i)
    subst hstop
    obtain ⟨d, hd, rfl⟩ := forall₂_singleton_left h
    rw [foldlM_cons_of_ok (decode_stop hd)]
    rfl

theorem readBlock_announced (hplain : isPlain e = true) (h : ReadAs F (announced e) w) :
    ∃ kind, requiredString w "type" = .ok kind ∧
      readBlock (blockName i) w (.ofString kind) = .ok (some (knownBlock e i)) := by
  cases e with
  | outputTextDelta itemId delta =>
    exact ⟨"text", by rw [requiredString, stringAt_of_readAs h rfl]; rfl, rfl⟩
  | toolCallDelta itemId callId name delta =>
    refine ⟨"tool_use", by rw [requiredString, stringAt_of_readAs h rfl]; rfl, ?_⟩
    show readBlock _ w .toolUse = _
    rw [readBlock, requiredString, requiredString, stringAt_of_readAs h rfl,
      stringAt_of_readAs h rfl]
    rfl
  | _ => cases hplain

/-- A block that starts is remembered under its number. -/
theorem decode_start (hplain : isPlain e = true)
    (h : Carried F limits (startWire i (announced e)).2 w) (hcreated : q.1.created = true)
    (hword : i < 2 ^ 64) (hmax : i < limits.maxCollectionItems)
    (hfresh : q.1.blocks.lookup i = none) :
    decodeEvent limits q w = .ok ({ q.1 with blocks := (i, knownBlock e i) :: q.1.blocks },
      q.2) := by
  have hread := readAs_wire h
  obtain ⟨block, hblock, hblockRead⟩ := hread.get? (k := "content_block") rfl
  obtain ⟨kind, hkind, hknown⟩ := readBlock_announced (i := i) hplain hblockRead
  refine (decodeEvent_wire h).trans ?_
  show q.1.decodeKind limits q.2 w .blockStart = _
  simp only [decodeKind, insertBlock, do_ok, checks_ok]
  exact ⟨hcreated, i, requiredIndex_of_readAs hread rfl hword hmax, block, hblock, kind, hkind, _,
    hknown, _, do_eq_ok.mpr ⟨(), by rw [hfresh]; rfl, rfl⟩, rfl⟩

theorem decodeDelta_carried (hplain : isPlain e = true) (h : ReadAs F (carried e) w)
    {events : Events} (hroom : events.length < limits.maxEvents)
    (hname : validateIdentifier (blockName i) limits.maxIdentifierBytes = .ok ()) :
    ∃ kind, requiredString w "type" = .ok kind ∧ ∀ r, decodeDelta limits events w (knownBlock e i)
      (.ofString kind) = .ok r ↔ Deliverable limits e ∧
      r = events ++ [withItem (blockName i) e] := by
  cases e with
  | outputTextDelta itemId delta =>
    refine ⟨"text_delta", by rw [requiredString, stringAt_of_readAs h rfl]; rfl, fun r => ?_⟩
    show decodeDelta limits events w (.text (blockName i)) .text = .ok r ↔ _
    simp only [decodeDelta, requiredString, stringAt_of_readAs (k := "text") h rfl, do_eq_ok,
      checks_ok, Option.some.injEq, exists_eq_left', pushText_eq_ok, hname, hroom, true_and,
      Deliverable]
    rfl
  | toolCallDelta itemId callId name delta =>
    refine ⟨"input_json_delta", by rw [requiredString, stringAt_of_readAs h rfl]; rfl, fun r => ?_⟩
    show decodeDelta limits events w (.tool (blockName i) callId name) .inputJson = .ok r ↔ _
    simp only [decodeDelta, requiredString, stringAt_of_readAs (k := "partial_json") h rfl,
      do_eq_ok, checks_ok, Option.some.injEq, exists_eq_left', pushTool_eq_ok, hname, hroom,
      true_and, Deliverable, and_assoc]
    rfl
  | _ => cases hplain

theorem decodeEvent_delta {delta : Json} (h : Carried F limits (deltaWire i delta).2 w) :
    decodeEvent limits q w = .ok r ↔
      ∃ read, ReadAs F delta read ∧ q.1.created = true ∧ ∃ index,
        requiredIndex w limits.maxCollectionItems = .ok index ∧ ∃ block, q.1.blocks.lookup index =
        some block ∧ ∃ kind, requiredString read "type" = .ok kind ∧ ∃ events,
        decodeDelta limits q.2 read block (.ofString kind) = .ok events ∧ r = (q.1, events) := by
  obtain ⟨read, hread, hdelta⟩ := (readAs_wire h).get? (k := "delta") rfl
  rw [show decodeEvent limits q w = q.1.decodeKind limits q.2 w .blockDelta from decodeEvent_wire h]
  simp only [decodeKind, do_ok, checks_ok, hread, Option.some.injEq, exists_eq_left',
    eq_comm (a := r)]
  constructor
  · intro hok
    exact ⟨read, hdelta, hok⟩
  · rintro ⟨read', hread', hok⟩
    cases Option.some.inj (hdelta.symm.trans hread')
    exact hok

/-- **Deltas.** A delta of a block that is known comes back under the name of the block. -/
theorem decode_delta (hplain : isPlain e = true)
    (h : Carried F limits (deltaWire i (carried e)).2 w) (hcreated : q.1.created = true)
    (hword : i < 2 ^ 64) (hmax : i < limits.maxCollectionItems)
    (hknown : q.1.blocks.lookup i = some (knownBlock e i)) (hroom : q.2.length < limits.maxEvents)
    (hname : validateIdentifier (blockName i) limits.maxIdentifierBytes = .ok ()) :
    decodeEvent limits q w = .ok r ↔
      Deliverable limits e ∧ r = (q.1, q.2 ++ [withItem (blockName i) e]) := by
  have hindex := requiredIndex_of_readAs (readAs_wire h) rfl hword hmax
  obtain ⟨read, hget, hread⟩ := (readAs_wire h).get? (k := "delta") rfl
  obtain ⟨kind, hkind, hdelta⟩ := decodeDelta_carried hplain hread hroom hname
  rw [decodeEvent_delta h]
  constructor
  · rintro ⟨read', hread', -, i', hindex', block, hblock, kind', hkind', events, hevents, rfl⟩
    cases Option.some.inj (hread.symm.trans hread')
    cases Except.ok.inj (hindex.symm.trans hindex')
    cases Option.some.inj (hknown.symm.trans hblock)
    cases Except.ok.inj (hkind.symm.trans hkind')
    obtain ⟨hdeliverable, rfl⟩ := (hdelta _).mp hevents
    exact ⟨hdeliverable, rfl⟩
  · rintro ⟨hdeliverable, rfl⟩
    exact ⟨read, hread, hcreated, i, hindex, _, hknown, kind, hkind, _,
      (hdelta _).mpr ⟨hdeliverable, rfl⟩, rfl⟩

/-- **Signatures.** The decoder has no use for the delta that closes a thinking block. -/
theorem decode_signature {signature : String} (h : Carried F limits (deltaWire i (.obj
      [("type", .str "signature_delta"), ("signature", .str signature)])).2 w)
    (r : AnthropicStream × Events) : decodeEvent limits q w ≠ .ok r := by
  intro hok
  obtain ⟨read, hread, -, -, -, block, -, kind, hkind, events, hevents, -⟩ :=
    (decodeEvent_delta h).mp hok
  rw [requiredString, stringAt_of_readAs hread rfl] at hkind
  cases hkind
  -- no block takes a delta of an unknown kind
  cases block <;> cases hevents

/-! ### The first event and the last ones -/

theorem startMessage_members (context : AnthropicEncodeContext) (id : String) :
    ∃ fields, Outbound.AnthropicCodec.startMessage context id = .obj fields ∧
      (fields.map Prod.fst).Nodup ∧ fields.lookup "id" = some (.str id) ∧
      fields.lookup "usage" = some (initialUsageValue context.initialUsage).tree := by
  refine ⟨_, rfl, ?_, lookup_orInsertAll rfl _, lookup_orInsertAll rfl _⟩
  apply orInsertAll_nodup
  simp

/-- The counts of a message that starts. -/
theorem startUsage_initial {s : AnthropicStream} (h : ReadAs F (initialUsageValue usage).tree w) :
    s.startUsage (some w) =
      .ok { s with inputTokens := usage.inputTokens, outputTokens := usage.outputTokens } := by
  have hnd := orInsertAll_nodup (nodup_anthropicUsageFields usage) usage.extensions
  have hread := readAs_toValue.mp h
  unfold startUsage
  dsimp only
  rw [optionalU64_of_readAs (k := "input_tokens") hread (lookup_orInsertAll rfl _) hnd,
    optionalU64_of_readAs (k := "output_tokens") hread (lookup_orInsertAll rfl _) hnd]
  rfl

theorem decode_created {id : String}
    (h : Carried F limits
    (wire "message_start" [("message", Outbound.AnthropicCodec.startMessage context id)]).2 w)
      (hfresh : q.1.created = false) : decodeEvent limits q w = .ok r ↔ Deliverable limits
      (.created id) ∧
      r = ({ q.1 with created := true, inputTokens := context.initialUsage.inputTokens,
                      outputTokens := context.initialUsage.outputTokens },
                        q.2 ++ [.created id]) := by
  obtain ⟨message, hmessage, hread⟩ := (readAs_wire h).get? (k := "message") rfl
  obtain ⟨fields, hfields, hkeys, hid, husage⟩ := startMessage_members context id
  rw [hfields] at hread
  obtain ⟨usage, husageGet, husageRead⟩ := hread.get? husage hkeys
  rw [show decodeEvent limits q w = q.1.decodeKind limits q.2 w .messageStart
    from decodeEvent_wire h]
  simp only [decodeKind, do_ok, checks_ok, hmessage, husageGet,
    stringAt_of_readAs hread hid hkeys, startUsage_initial husageRead, hfresh, Bool.not_false,
    true_and, Option.some.injEq, Except.ok.injEq, exists_eq_left', Option.getD_some, Deliverable]
  exact and_congr_right fun _ => eq_comm

/-- The counts of a message that ends. -/
theorem deltaUsage_final {s : AnthropicStream} (h : ReadAs F (finalUsageValue usage).tree w) :
    s.deltaUsage (some w) = .ok { s with outputTokens := usage.outputTokens } := by
  have hnd := nodup_append_entries (nodup_finalUsageFields usage) usage.extensions
    (p := fun e => isOutputKey e.1 && !((finalUsageFields usage).map Prod.fst).contains e.1)
    fun e he => by simp_all
  unfold deltaUsage
  dsimp only
  rw [optionalU64_of_readAs (k := "output_tokens") (readAs_toValue.mp h) rfl hnd]
  rfl

theorem decode_lastDelta
    (h : Carried F limits (Outbound.AnthropicCodec.lastDelta context usage).2 w)
    (hcreated : q.1.created = true) :
    decodeEvent limits q w = .ok ({ q.1 with outputTokens := usage.outputTokens }, q.2) := by
  obtain ⟨read, hget, hread⟩ := (readAs_wire h).get? (k := "usage") rfl
  rw [show decodeEvent limits q w = q.1.decodeKind limits q.2 w .messageDelta
    from decodeEvent_wire h]
  simp only [decodeKind, do_ok, checks_ok, hget, deltaUsage_final hread]
  exact ⟨hcreated, _, rfl, rfl⟩

theorem decode_messageStop (h : Carried F limits (wire "message_stop" []).2 w)
    (hcreated : q.1.created = true) :
    decodeEvent limits q w = .ok ({ q.1 with completed := true },
      q.2 ++ [.usage ⟨q.1.inputTokens, q.1.outputTokens, none, none, .empty⟩, .completed]) := by
  rw [show decodeEvent limits q w = q.1.decodeKind limits q.2 w .messageStop
    from decodeEvent_wire h]
  simp only [decodeKind, do_ok, checks_ok]
  exact ⟨hcreated, trivial⟩

/-- All frames of the end of a message whose last block is no thinking block. -/
theorem decode_ending {c : AnthropicCodec} (hclosing : c.closing = .ok closing)
    (hplain : ∀ itemId i, c.active ≠ some (.reasoning itemId i))
    (h : Forall₂ (fun e => Carried F limits e.2)
      (closing ++ [Outbound.AnthropicCodec.lastDelta c.context usage, wire "message_stop" []]) ds)
    (hcreated : q.1.created = true) : ds.foldlM (decodeEvent limits) q =
      .ok ({ q.1 with outputTokens := usage.outputTokens, completed := true },
        q.2 ++ [.usage ⟨q.1.inputTokens, usage.outputTokens, none, none, .empty⟩, .completed]) := by
  obtain ⟨es, fs, rfl, hes, hfs⟩ := forall₂_append_left h
  obtain ⟨d, _, hd, hrest, rfl⟩ := forall₂_cons_left_iff.mp hfs
  obtain ⟨d', hd', rfl⟩ := forall₂_singleton_left hrest
  have hlast := decode_messageStop (q := ({ q.1 with outputTokens := usage.outputTokens }, q.2)) hd'
    hcreated
  rw [foldlM_append_eq_ok]
  refine ⟨q, decode_closing hclosing hplain hes, ?_⟩
  rw [foldlM_cons_of_ok (decode_lastDelta hd hcreated), foldlM_cons_of_ok hlast]
  rfl

end AnthropicStream

/-! ## Items along a run -/

section Items

open Outbound.AnthropicCodec hiding WireEvent deltaWire

variable {c d : AnthropicCodec} {out : List WireEvent} {e : CanonicalEvent} {deltas : Events}

/-- The item of a block. -/
def activeItem : ActiveBlock → String
  | .text itemId _ => itemId
  | .reasoning itemId _ => itemId
  | .tool itemId _ _ _ => itemId

theorem activeItem_blockOf (e : CanonicalEvent) (i : Nat) :
    activeItem (blockOf e i) = itemIdOf e := by
  cases e <;> rfl

/-- Items are only ever added. -/
theorem seenItems_step (h : Call.stepOfCall encodeEventValues c e = .ok (d, out)) :
    c.seenItems <:+ d.seenItems := by
  have hhandle := handle_of_step AnthropicCodec.encodeEventValues_eq_ok h
  cases hdelta : e.isDelta with
  | true =>
    cases AnthropicCodec.delivers_handle hdelta hhandle with
    | inside hactive => exact suffix_rfl
    | opening hitem hclosing => exact suffix_cons _ _
  | false =>
    cases e with
    | created responseId =>
      obtain ⟨-, -, -, rfl⟩ := created_eq_ok.mp hhandle
      exact suffix_rfl
    | usage usage =>
      obtain ⟨-, -, -, wires, -, -, rfl⟩ := takeUsage_eq_ok.mp hhandle
      exact suffix_rfl
    | completed =>
      obtain ⟨-, -, -, rfl⟩ := completed_eq_ok.mp hhandle
      exact suffix_rfl
    | failed error =>
      obtain ⟨-, rfl⟩ := failed_eq_ok.mp hhandle
      exact suffix_rfl
    | _ => cases hdelta

/-- The open block is one of an item that has been seen. -/
def ActiveSeen (c : AnthropicCodec) : Prop := ∀ block, c.active = some block →
    activeItem block ∈ c.seenItems

theorem activeSeen_step (hc : ActiveSeen c) (hdelta : e.isDelta = true)
    (h : Call.stepOfCall encodeEventValues c e = .ok (d, out)) :
    ActiveSeen d ∧ d.seenItems.reverse = noteItem c.seenItems.reverse e := by
  cases AnthropicCodec.delivers_handle hdelta
    (handle_of_step AnthropicCodec.encodeEventValues_eq_ok h) with
  | @inside i hactive =>
    have hmem := hc _ hactive
    rw [activeItem_blockOf] at hmem
    refine ⟨hc, ?_⟩
    rw [noteItem, if_pos (mem_reverse.mpr hmem)]
  | opening hitem hclosing =>
    refine ⟨?_, ?_⟩
    · intro block hblock
      cases hblock
      rw [activeItem_blockOf]
      exact mem_cons_self
    · rw [noteItem, if_neg (fun hmem => hitem.2.2 (mem_reverse.mp hmem)), reverse_cons]

/-- **Items.** What the codec has seen are the items of the deltas. -/
theorem seenItems_run (hc : ActiveSeen c) (hdeltas : AllDeltas deltas)
    (h : Call.runAll encodeEventValues c deltas = .ok (d, ws)) :
    d.seenItems.reverse = deltas.foldl noteItem c.seenItems.reverse := by
  induction deltas generalizing c ws with
  | nil =>
    cases h
    rfl
  | cons e deltas ih =>
    obtain ⟨u, o, p, hstep, hrest, rfl⟩ := feed_cons_eq_ok.mp h
    obtain ⟨hu, hitems⟩ := activeSeen_step hc (hdeltas e (by simp)) hstep
    rw [foldl_cons, ← hitems]
    exact ih hu (fun e' he' => hdeltas e' (by simp [he'])) hrest

/-! ## Thinking -/

/-- The delta that closes a thinking block. -/
def signatureWire (i : Nat) (signature : String) : WireEvent :=
  deltaWire i (.obj [("type", .str "signature_delta"), ("signature", .str signature)])

/-- A thinking block is open. -/
def Thinking (c : AnthropicCodec) : Prop := ∃ itemId i, c.active = some (.reasoning itemId i)

def isReasoning : CanonicalEvent → Bool
  | .reasoningDelta .. => true
  | _ => false

/-- A signature was sent. -/
def Signed (ws : List WireEvent) : Prop := ∃ i signature, signatureWire i signature ∈ ws

theorem Signed.append_left (h : Signed ws) (vs : List WireEvent) : Signed (ws ++ vs) := by
  obtain ⟨i, signature, hmem⟩ := h
  exact ⟨i, signature, mem_append_left _ hmem⟩

theorem Signed.append_right (h : Signed ws) (vs : List WireEvent) : Signed (vs ++ ws) := by
  obtain ⟨i, signature, hmem⟩ := h
  exact ⟨i, signature, mem_append_right _ hmem⟩

theorem signed_of_closing {closing : List WireEvent} (hthinking : Thinking c)
    (h : c.closing = .ok closing) :
    Signed closing := by
  obtain ⟨itemId, i, hactive⟩ := hthinking
  unfold Outbound.AnthropicCodec.closing at h
  rw [hactive] at h
  simp only [closingWires, do_ok] at h
  obtain ⟨signature, -, rfl⟩ := h
  exact ⟨i, signature, mem_cons_self⟩

theorem thinking_step (hdelta : e.isDelta = true)
    (h : Call.stepOfCall encodeEventValues c e = .ok (d, out))
    (hthinking : Thinking c ∨ isReasoning e = true) : Thinking d ∨ Signed out := by
  cases AnthropicCodec.delivers_handle hdelta
    (handle_of_step AnthropicCodec.encodeEventValues_eq_ok h) with
  | @inside i hactive =>
    left
    cases e with
    | reasoningDelta itemId delta => exact ⟨itemId, i, hactive⟩
    | _ => exact hthinking.resolve_right (by simp [isReasoning])
  | opening hitem hclosing =>
    cases e with
    | reasoningDelta itemId delta => exact .inl ⟨itemId, _, rfl⟩
    | _ =>
      have hopen : Thinking c.validated := hthinking.resolve_right (by simp [isReasoning])
      exact .inr ((signed_of_closing hopen hclosing).append_left _)

/-- **Thinking.** A run that thinks has a thinking block open at its end or has sent a signature. -/
theorem thinking_run (hdeltas : AllDeltas deltas)
    (h : Call.runAll encodeEventValues c deltas = .ok (d, ws))
    (hthinking : Thinking c ∨ ∃ e ∈ deltas, isReasoning e = true) : Thinking d ∨ Signed ws := by
  induction deltas generalizing c ws with
  | nil =>
    cases h
    exact .inl (hthinking.resolve_right (by simp))
  | cons e deltas ih =>
    obtain ⟨u, o, p, hstep, hrest, rfl⟩ := feed_cons_eq_ok.mp h
    have hrun := ih (fun e' he' => hdeltas e' (by simp [he'])) hrest
    have htail : Thinking d ∨ Signed p → Thinking d ∨ Signed (o ++ p) := Or.imp_right fun hp =>
      hp.append_right o
    have hhead : Thinking c ∨ isReasoning e = true → Thinking d ∨ Signed (o ++ p) := by
      intro hthink
      rcases thinking_step (hdeltas e (by simp)) hstep hthink with hu | ho
      · exact htail (hrun (.inl hu))
      · exact .inr (ho.append_left p)
    rcases hthinking with hc | ⟨e', he', hreasoning⟩
    · exact hhead (.inl hc)
    · rcases mem_cons.mp he' with rfl | hin
      · exact hhead (.inr hreasoning)
      · exact htail (hrun (.inr ⟨e', hin, hreasoning⟩))

/-- The decoder does not get through frames with a signature. -/
theorem not_decoded_of_signed {F : FloatReader} {limits : UpstreamLimits} {ds : List Json}
    (hsigned : Signed ws) (h : Forall₂ (fun e => Carried F limits e.2) ws ds)
    {q : AnthropicStream × Events} :
    ds.foldlM (decodeEvent limits) q ≠ .ok r := by
  intro hfold
  obtain ⟨i, signature, hmem⟩ := hsigned
  obtain ⟨w, hw, hcarried⟩ := of_mem_right (R := flip _) h.flip hmem
  obtain ⟨q', r', hread⟩ := exists_of_foldlM hfold hw
  exact AnthropicStream.decode_signature hcarried r' hread

end Items

/-! ## Whole streams -/

section Streams

open Outbound.AnthropicCodec hiding WireEvent deltaWire

variable {F : FloatReader} {limits : UpstreamLimits} {context : AnthropicEncodeContext}
  {requestId id : String} {deltas : Events} {wires : List WireEvent}

/-- A number behind a stem makes an identifier, if there is room for it. -/
theorem validateIdentifier_numbered {stem : String} {i maximum : Nat}
    (hstem : Core.hasControl stem = false) (hlong : 2 < stem.toList.length)
    (h : (numbered stem i).utf8ByteSize ≤ maximum) :
    validateIdentifier (numbered stem i) maximum = .ok () := by
  have hlist : (numbered stem i).toList = stem.toList ++ Nat.toDigits 10 i := by
    rw [numbered, String.toList_append]
    simp [toString, Nat.repr]
  have hdigits : ∀ c ∈ Nat.toDigits 10 i, Core.isControl c = false := by
    intro c hc
    have hdigit := Nat.isDigit_of_mem_toDigits (by decide) (by decide) hc
    simp only [Char.isDigit, Bool.and_eq_true, decide_eq_true_eq, UInt32.le_iff_toNat_le] at hdigit
    have hlow : 48 ≤ c.toNat := hdigit.1
    have hhigh : c.toNat ≤ 57 := hdigit.2
    simp only [Core.isControl, Bool.or_eq_false_iff, decide_eq_false_iff_not, Bool.and_eq_false_iff]
    omega
  have hcontrol : Core.hasControl (numbered stem i) = false := by
    rw [Core.hasControl, hlist, any_append, Bool.or_eq_false_iff]
    exact ⟨hstem, any_eq_false.mpr fun c hc => by simp [hdigits c hc]⟩
  have hne : ∀ other : String, other.toList.length ≤ 2 → numbered stem i ≠ other := by
    rintro _ hlength rfl
    rw [hlist, length_append] at hlength
    omega
  have hempty : (numbered stem i).isEmpty = false := by
    rw [String.isEmpty_eq_false_iff]
    exact hne "" (by decide)
  have hdot : (numbered stem i == ".") = false := beq_eq_false_iff_ne.mpr (hne "." (by decide))
  have hdots : (numbered stem i == "..") = false := beq_eq_false_iff_ne.mpr (hne ".." (by decide))
  rw [validateIdentifier, requireThat_eq_ok, hempty, hcontrol, hdot, hdots]
  simpa using h

/-- Between two deltas: blocks have been numbered in the order of their items, and the decoder knows
    the open one, which is no thinking block. -/
structure Numbering (context : AnthropicEncodeContext) (c : AnthropicCodec)
    (s : AnthropicStream) : Prop where
  sameContext : c.context = context
  sameLimits : c.limits = .default
  created : s.created = true
  inputTokens : s.inputTokens = context.initialUsage.inputTokens
  next : c.nextIndex = c.seenItems.length
  room : c.seenItems.length ≤ AnthropicLimits.default.maxOutputItems
  nodup : c.seenItems.Nodup
  fresh : ∀ i ≥ c.nextIndex, s.blocks.lookup i = none
  known : ∀ e i, isPlain e = true → c.active = some (blockOf e i) →
    c.seenItems.head? = some (itemIdOf e) ∧ i + 1 = c.nextIndex ∧
    s.blocks.lookup i = some (knownBlock e i)
  plain : ∀ itemId i, c.active ≠ some (.reasoning itemId i)

theorem numbering_start (context : AnthropicEncodeContext) (id requestId : String) :
    Numbering context
      { AnthropicCodec.new context with contextValidated := true, responseId := some id }
      { new requestId with
        created := true, inputTokens := context.initialUsage.inputTokens
        outputTokens := context.initialUsage.outputTokens } where
  sameContext := rfl
  sameLimits := rfl
  created := rfl
  inputTokens := rfl
  next := rfl
  room := Nat.zero_le _
  nodup := .nil
  fresh := fun _ _ => rfl
  known := by
    intro e i he hactive
    cases hactive
  plain := by
    intro itemId i hactive
    cases hactive

/-- Two deltas of the same block. -/
theorem sameBlock {e e' : CanonicalEvent} {i j : Nat} (he : isPlain e = true)
    (he' : isPlain e' = true) (h : blockOf e i = blockOf e' j) : i = j ∧ itemIdOf e = itemIdOf e' ∧
    knownBlock e i = knownBlock e' j := by
  cases e with
  | outputTextDelta itemId delta =>
    cases e' with
    | outputTextDelta itemId' delta' =>
      cases h
      exact ⟨rfl, rfl, rfl⟩
    | toolCallDelta itemId' callId name delta' => cases h
    | _ => cases he'
  | toolCallDelta itemId callId name delta =>
    cases e' with
    | outputTextDelta itemId' delta' => cases h
    | toolCallDelta itemId' callId' name' delta' =>
      cases h
      exact ⟨rfl, rfl, rfl⟩
    | _ => cases he'
  | _ => cases he

theorem idxOf_reverse_of_head {items : List String} {x : String} (hnd : items.Nodup)
    (h : items.head? = some x) :
    items.reverse.idxOf x + 1 = items.length := by
  cases items with
  | nil => cases h
  | cons y rest =>
    cases h
    have hfresh : x ∉ rest.reverse := by simpa using (nodup_cons.mp hnd).1
    rw [reverse_cons, idxOf_append_of_notMem hfresh]
    simp

section OneDelta

variable {n : Nat} {c : AnthropicCodec} {s : AnthropicStream} {e : CanonicalEvent}

/-- The delta under the name of the block that is open. -/
theorem Numbering.inBlock_eq {i : Nat} (hc : Numbering context c s) (hplain : isPlain e = true)
    (hactive : c.active = some (blockOf e i)) :
    itemIdOf e ∈ c.seenItems ∧ withItem (blockName i) e = inBlock c.seenItems.reverse e := by
  obtain ⟨hhead, hnext, -⟩ := hc.known e i hplain hactive
  have hindex := idxOf_reverse_of_head hc.nodup hhead
  refine ⟨mem_of_mem_head? hhead, ?_⟩
  rw [inBlock, show c.seenItems.reverse.idxOf (itemIdOf e) = i by rw [hc.next] at hnext; omega]

/-- Opening a block that the decoder then knows. -/
theorem Numbering.opening (hc : Numbering context c s) (callIds : List String)
    (hplain : isPlain e = true) (hitem : c.Registrable (itemIdOf e)) :
    Numbering context
      { c with active := some (blockOf e c.nextIndex), callIds,
               seenItems := itemIdOf e :: c.seenItems, nextIndex := c.nextIndex + 1 }
      { s with blocks := (c.nextIndex, knownBlock e c.nextIndex) :: s.blocks } := { hc with
  next := congrArg (· + 1) hc.next
  room := by
    have hroom := hitem.2.1
    rw [hc.sameLimits] at hroom
    exact hroom
  nodup := nodup_cons.mpr ⟨hitem.2.2, hc.nodup⟩
  fresh := by
    intro i hi
    have hne : i ≠ c.nextIndex := Nat.ne_of_gt hi
    rw [lookup_cons, beq_eq_false_iff_ne.mpr hne]
    exact hc.fresh i (Nat.le_of_succ_le hi)
  known := by
    intro e' i he' hactive
    obtain ⟨rfl, hsame, hknown⟩ := sameBlock hplain he' (Option.some.inj hactive)
    refine ⟨congrArg some hsame, rfl, ?_⟩
    rw [lookup_cons, beq_self_eq_true, hknown]
  plain := by
    intro itemId i hactive
    cases e with
    | outputTextDelta | toolCallDelta => cases hactive
    | _ => cases hplain }

/-- **One delta.** -/
theorem echo_anthropic (hroom : n ≤ limits.maxCollectionItems)
    (hnames : ∀ i < n, (blockName i).utf8ByteSize ≤ limits.maxIdentifierBytes) :
    Echo (Call.stepOfCall encodeEventValues) (fun e => Carried F limits e.2)
      (decodeEvent limits) (fun c q => Numbering context c q.1)
      (fun c => c.seenItems.length ≤ n) (fun e => isPlain e = true) (Deliverable limits)
      (fun c e e' => itemIdOf e ∈ c.seenItems ∧ e' = inBlock c.seenItems.reverse e)
      limits.maxEvents where
  step := by
    intro c d e ws ds q hc hn hevents hplain hstep hsent
    have hdelta : e.isDelta = true := by cases e <;> first | rfl | cases hplain
    have hname : ∀ i < n, validateIdentifier (blockName i) limits.maxIdentifierBytes = .ok () :=
      fun i hi => validateIdentifier_numbered (by decide) (by decide) (hnames i hi)
    have hword : ∀ i < AnthropicLimits.default.maxOutputItems, i < 2 ^ 64 :=
      fun i hi => Nat.lt_trans hi (by decide)
    have hvalid : Numbering context c.validated q.1 := { hc with }
    cases AnthropicCodec.delivers_handle hdelta
      (handle_of_step AnthropicCodec.encodeEventValues_eq_ok hstep) with
    | @inside i hactive =>
      obtain ⟨w, hw, rfl⟩ := forall₂_singleton_left hsent
      obtain ⟨-, hnext, hknown⟩ := hc.known e i hplain hactive
      have hi : i < c.seenItems.length := by rw [← hc.next]; omega
      have hlt : i < n := Nat.lt_of_lt_of_le hi hn
      obtain ⟨hmem, hecho⟩ := hc.inBlock_eq hplain hactive
      refine ⟨q.1, _, hvalid, ⟨hmem, hecho⟩, fun r => ?_⟩
      simp only [foldlM_cons, foldlM_nil, bind_pure]
      exact AnthropicStream.decode_delta hplain hw hc.created
        (hword i (Nat.lt_of_lt_of_le hi hc.room)) (Nat.lt_of_lt_of_le hlt hroom) hknown hevents
        (hname i hlt)
    | @opening closing callIds hitem hclosing =>
      obtain ⟨es, fs, rfl, hes, hfs⟩ := forall₂_append_left hsent
      obtain ⟨w, _, hw, hrest, rfl⟩ := forall₂_cons_left_iff.mp hfs
      obtain ⟨w', hw', rfl⟩ := forall₂_singleton_left hrest
      have hopen := hvalid.opening callIds hplain hitem
      have hlt : c.nextIndex < n := by
        have hlength : c.seenItems.length + 1 ≤ n := hn
        rw [hc.next]
        omega
      have hindex : c.nextIndex < 2 ^ 64 := hword _ (by rw [hc.next]; exact hopen.room)
      have hmax := Nat.lt_of_lt_of_le hlt hroom
      obtain ⟨-, -, hknown⟩ := hopen.known e c.nextIndex hplain rfl
      obtain ⟨hmem, hecho⟩ := hopen.inBlock_eq hplain rfl
      refine ⟨_, _, hopen, ⟨hmem, hecho⟩, fun r => ?_⟩
      have hclosed := AnthropicStream.decode_closing (q := q) hclosing hvalid.plain hes
      have hstart := AnthropicStream.decode_start hplain hw hc.created hindex hmax
        (hc.fresh _ (Nat.le_refl _))
      have hread := AnthropicStream.decode_delta (r := r)
        (q := ({ q.1 with blocks := (c.nextIndex, knownBlock e c.nextIndex) :: q.1.blocks }, q.2))
        hplain hw' hopen.created hindex hmax hknown hevents (hname _ hlt)
      refine Iff.trans ?_ hread
      rw [foldlM_append_eq_ok, hclosed]
      simp only [Except.ok.injEq, exists_eq_left']
      rw [foldlM_cons_of_ok hstart]
      simp only [foldlM_cons, foldlM_nil, bind_pure]
  keep := by
    rintro c d e e' b ws ⟨hmem, rfl⟩ hstep
    obtain ⟨more, hmore⟩ := seenItems_step hstep
    refine ⟨hmore ▸ mem_append_right _ hmem, ?_⟩
    rw [inBlock, inBlock, ← hmore, reverse_append, idxOf_append_of_mem (mem_reverse.mpr hmem)]
  back := fun hn hstep => Nat.le_trans (seenItems_step hstep).length_le hn

end OneDelta

/-- What the decoder reports of the counts: the input as it was known at the start, the output as it
    was at the end. -/
def reportedUsage (context : AnthropicEncodeContext) (usage : Usage) : Usage :=
  ⟨context.initialUsage.inputTokens, usage.outputTokens, none, none, .empty⟩

theorem isPlain_of_isDelta {e : CanonicalEvent} (hdelta : e.isDelta = true)
    (hreasoning : isReasoning e = false) :
    isPlain e = true := by
  cases e with
  | outputTextDelta | toolCallDelta => rfl
  | reasoningDelta itemId delta => cases hreasoning
  | _ => cases hdelta

/-- **Thinking is never read back**: a signature has been sent, at the latest with the usage. -/
theorem AnthropicCodec.not_run_of_thinking {usage : Usage} {c : AnthropicCodec}
    (hdeltas : AllDeltas deltas) (hwires : Call.runAll encodeEventValues (.new context)
      (whole id deltas usage) = .ok (c, wires))
    (hlimits : WithinLimits F limits (named wires)) (hthinks : ∃ e ∈ deltas, isReasoning e = true)
    (events : Events) :
    run F (.anthropic (.new requestId limits)) [sseBytes wires] ≠ .ok events := by
  obtain ⟨c₁, c₂, ws, closing, rfl, hrun, hclosing, rfl⟩ := runAll_cases hwires
  obtain ⟨ds, hds⟩ := exists_carried hlimits.readable
  have hsigned :
      Signed (ws ++ (closing ++ [lastDelta c₂.context usage, wire "message_stop" []])) := by
    rcases thinking_run hdeltas hrun (.inr hthinks) with hthinking | hsigned
    · exact ((signed_of_closing hthinking hclosing).append_left _).append_right _
    · exact hsigned.append_left _
  have hcarried := forall₂_map_left_iff.mp hds
  intro hread
  obtain ⟨t, hfold, -⟩ :=
    (run_counted .anthropic (fun _ _ => rfl) (fun _ => rfl) (fun _ _ => rfl) hlimits hds rfl).mp
      hread
  exact not_decoded_of_signed (hsigned.append_right [_]) hcarried hfold

/-- What was sent of a message is read back with its items named by blocks, exactly if the decoder
    takes all of it. -/
theorem AnthropicCodec.run_sent_iff {usage : Usage} {c : AnthropicCodec}
    (hdeltas : AllDeltas deltas) (hwires : Call.runAll encodeEventValues (.new context)
      (whole id deltas usage) = .ok (c, wires))
    (hlimits : WithinLimits F limits (named wires)) (hcount : deltas.length + 3 ≤ limits.maxEvents)
    (hitems : (blockItems deltas).length ≤ limits.maxCollectionItems)
    (hnames : ∀ i < (blockItems deltas).length,
      (blockName i).utf8ByteSize ≤ limits.maxIdentifierBytes) :
    run F (.anthropic (.new requestId limits)) [sseBytes wires] =
        .ok (whole id (inBlocks deltas) (reportedUsage context usage)) ↔
      ∀ e ∈ .created id :: deltas, Deliverable limits e := by
  by_cases hthinks : ∃ e ∈ deltas, isReasoning e = true
  · constructor
    · intro hread
      exact absurd hread (not_run_of_thinking hdeltas hwires hlimits hthinks _)
    · intro hall
      obtain ⟨e, he, hreasoning⟩ := hthinks
      have hdeliverable := hall e (mem_cons_of_mem _ he)
      cases e with
      | reasoningDelta itemId delta => exact hdeliverable.elim
      | _ => cases hreasoning
  · have hplain : ∀ e ∈ deltas, isPlain e = true := fun e he =>
      isPlain_of_isDelta (hdeltas e he) (Bool.eq_false_iff.mpr fun h => hthinks ⟨e, he, h⟩)
    obtain ⟨c₁, c₂, ws, closing, rfl, hrun, hclosing, rfl⟩ := runAll_cases hwires
    obtain ⟨ds, hds⟩ := exists_carried hlimits.readable
    refine (run_counted .anthropic (fun _ _ => rfl) (fun _ => rfl)
      (fun _ _ => rfl) hlimits hds rfl).trans ?_
    obtain ⟨d, ds, hd, hrest, rfl⟩ := forall₂_cons_left_iff.mp (forall₂_map_left_iff.mp hds)
    obtain ⟨es, fs, rfl, hes, hfs⟩ := forall₂_append_left hrest
    have hseen : c₂.seenItems.reverse = blockItems deltas :=
      seenItems_run (fun block hblock => by cases hblock) hdeltas hrun
    have hbounded : c₂.seenItems.length ≤ (blockItems deltas).length := by
      rw [← hseen, length_reverse]
    obtain ⟨t, bs, hnumbered, hechoes, hread⟩ := (echo_anthropic hitems hnames).run
      (q := (_, [.created id])) (numbering_start context id requestId) hbounded
      (by rw [length_singleton]; omega) hplain hrun hes
    -- each delta comes back under the name its item has in the end
    obtain rfl : bs = inBlocks deltas := by
      have hnamed := forall₂_map_left_iff.mpr (hechoes.imp fun e e' h => h.2.symm)
      rw [forall₂_eq_eq_eq, hseen] at hnamed
      exact hnamed.symm
    have hfirst : ∀ r, [d].foldlM (decodeEvent limits) (.new requestId, []) = .ok r ↔ _ :=
      fun r => by
      rw [foldlM_singleton, AnthropicStream.decode_created hd rfl]
    have hlast : fs.foldlM (decodeEvent limits) (t, [.created id] ++ inBlocks deltas) =
        .ok ({ t with outputTokens := usage.outputTokens, completed := true },
          [.created id] ++ inBlocks deltas ++ [.usage (reportedUsage context usage),
            .completed]) := by
      rw [reportedUsage, ← hnumbered.inputTokens]
      exact AnthropicStream.decode_ending (q := (t, _)) hclosing hnumbered.plain hfs
        hnumbered.created
    have hboth : ∀ r, (d :: es).foldlM (decodeEvent limits) _ = .ok r ↔ _ :=
      foldlM_append_iff hfirst hread
    simp only [← cons_append, foldlM_append_eq_ok, hboth, forall_mem_cons]
    constructor
    · rintro ⟨t', ⟨q, ⟨hdeliverable, -⟩, -⟩, -⟩
      exact hdeliverable
    · intro hdeliverable
      refine ⟨{ t with outputTokens := usage.outputTokens, completed := true },
        ⟨_, ⟨hdeliverable, rfl⟩, ?_⟩, rfl, ?_⟩
      · rw [hlast, append_assoc]
        rfl
      · refine Nat.le_trans (Nat.min_le_left _ _) ?_
        simp only [inBlocks, length_cons, length_append, length_map, length_nil]
        omega

/-- **Anthropic and back.** What the codec sends of a message is read back by the stream decoder
    with its items named by their blocks, exactly if nothing of it is thinking and the decoder takes
    its identifiers and sizes. -/
theorem run_encodeEvent_blocks_iff {adapter : UpstreamAdapter} {requestId id : String}
    {deltas : List CanonicalEvent} {usage : Usage} {c : AnthropicCodec} {bytes : Bytes}
    (hprotocol : adapter.protocol = .anthropic) (hdeltas : AllDeltas deltas)
    (hsent : Call.runAll encodeEvent (.new context)
      (.created id :: (deltas ++ [.usage usage, .completed])) = .ok (c, bytes))
    (hlimits : WithinLimits F adapter.limits
      (named (Call.returned encodeEventValues (.new context)
        (.created id :: (deltas ++ [.usage usage, .completed])))))
    (hcount : deltas.length + 3 ≤ adapter.limits.maxEvents)
    (hitems : (blockItems deltas).length ≤ adapter.limits.maxCollectionItems)
    (hnames : ∀ i < (blockItems deltas).length,
      (numbered "anthropic_item_" i).utf8ByteSize ≤ adapter.limits.maxIdentifierBytes) :
    (adapter.streamDecoder requestId).run F [bytes] = .ok (.created id ::
        (inBlocks deltas ++ [.usage (reportedUsage context usage), .completed])) ↔
      ∀ e ∈ .created id :: deltas, Deliverable adapter.limits e := by
  obtain ⟨wires, hwires, rfl⟩ := (Call.runAll_eq_ok_iff_of_flatMap encodeEvent_eq_ok).mp hsent
  have hdecoder : adapter.streamDecoder requestId = .anthropic (.new requestId adapter.limits) := by
    rw [UpstreamAdapter.streamDecoder, hprotocol]
  rw [Call.returned_of_runAll hwires] at hlimits
  rw [hdecoder]
  exact AnthropicCodec.run_sent_iff hdeltas hwires hlimits hcount hitems hnames

/-- A message with a text and a call. -/
theorem run_encodeEvent_blocks_iff_twoBlocks :
    let events := [.created "r", .outputTextDelta "i" "x", .toolCallDelta "j" "c" "n" "y",
      .usage emptyUsage, .completed]
    let sent := named (Call.returned encodeEventValues (.new signingContext) events)
    let adapter : UpstreamAdapter := { plainAdapter .anthropic with limits := roomFor sent }
    ∃ c bytes, Call.runAll encodeEvent (.new signingContext) events = .ok (c, bytes) ∧
      (adapter.streamDecoder "q").run exactFloats [bytes] =
        .ok [.created "r", .outputTextDelta "anthropic_item_0" "x",
          .toolCallDelta "anthropic_item_1" "c" "n" "y",
          .usage (reportedUsage signingContext emptyUsage), .completed] := by
  intro events sent adapter
  have hdepth : ∀ p ∈ sent, p.2.tree.depth ≤ maxNesting := by decide +kernel
  obtain ⟨r, hrun⟩ := exists_of_isOk (x := Call.runAll encodeEvent (.new signingContext) events)
    (by decide +kernel)
  refine ⟨r.1, r.2, hrun, ?_⟩
  have hnames : ∀ i < 2, (numbered "anthropic_item_" i).utf8ByteSize ≤ 512 := by decide +kernel
  refine (@run_encodeEvent_blocks_iff _ _ adapter _ _
    [.outputTextDelta "i" "x", .toolCallDelta "j" "c" "n" "y"] emptyUsage _ _ rfl
    (by simp [AllDeltas, CanonicalEvent.isDelta]) hrun
    (withinLimits_roomFor (by decide +kernel) hdepth) (show 5 ≤ 4096 by omega)
    (show 2 ≤ 256 by omega) hnames).mpr ?_
  simp only [forall_mem_cons, not_mem_nil, false_implies, implies_true, and_true, Deliverable]
  decide +kernel

/-- A message that thinks, with the signature of its item, is sent and not read back. -/
theorem run_encodeEvent_thinking :
    let events := [.created "r", .reasoningDelta "i" "x", .usage emptyUsage, .completed]
    let sent := named (Call.returned encodeEventValues (.new signingContext) events)
    let adapter : UpstreamAdapter := { plainAdapter .anthropic with limits := roomFor sent }
    WithinLimits exactFloats adapter.limits sent ∧
      ∃ c bytes, Call.runAll encodeEvent (.new signingContext) events = .ok (c, bytes) ∧
        ∀ read, (adapter.streamDecoder "q").run exactFloats [bytes] ≠ .ok read := by
  intro events sent adapter
  have hdepth : ∀ p ∈ sent, p.2.tree.depth ≤ maxNesting := by decide +kernel
  have hlimits := withinLimits_roomFor (by decide +kernel) hdepth
  refine ⟨hlimits, ?_⟩
  obtain ⟨r, hrun⟩ := exists_of_isOk (x := Call.runAll encodeEvent (.new signingContext) events)
    (by decide +kernel)
  refine ⟨r.1, r.2, hrun, fun read => ?_⟩
  obtain ⟨wires, hwires, hbytes⟩ := (Call.runAll_eq_ok_iff_of_flatMap encodeEvent_eq_ok).mp hrun
  have hsent : sent = named wires := congrArg named (Call.returned_of_runAll hwires)
  have hwithin : WithinLimits exactFloats adapter.limits (named wires) := hsent ▸ hlimits
  rw [← hbytes]
  exact @AnthropicCodec.not_run_of_thinking _ _ _ _ _ [.reasoningDelta "i" "x"] _ _ _
    (.singleton rfl) hwires hwithin ⟨_, mem_singleton_self _, rfl⟩ read

end Streams

end Wokcore.Protocols.Loopback
