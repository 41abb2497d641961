import Wokcore.Protocols.AcceptOpenAi

/-!
# Accepting a body for Anthropic

The Anthropic decoder checks more than the encoder promises. A body of the encoder is one user
message with a block for each item; it is accepted exactly if the images are links, the thinking
budget fits below the token limit and the identifiers, the counts and the document as a whole are
within the limits of the decoder. The sizes of the values inside need no condition of their own,
since each is a part of the document.
-/

set_option autoImplicit false

namespace Wokcore.Protocols

open Lib Wokcore.Core Inbound Upstream AnthropicInboundLimits Outcome Result Json List

variable {request : CanonicalRequest} {P : Parsers} {tool : ToolDefinition} {value : String}

/-- What the Anthropic decoder asks of a request that the encoder does not see to. -/
structure AnthropicFits (request : CanonicalRequest) : Prop where
  model : request.model.utf8ByteSize ≤ default.maxIdentifierBytes
  callId : ∀ callId output, .toolResult callId output ∈ request.input →
    callId.utf8ByteSize ≤ default.maxIdentifierBytes
  image : ∀ url detail, .imageUrl url detail ∈ request.input → isHttpScheme url.scheme = true
  inputLength : request.input.length ≤ default.maxContentBlocks
  toolsLength : request.tools.length ≤ default.maxTools
  thinking : request.reasoning.isSome = true →
    1024 ≤ anthropicThinkingBudget request ∧ anthropicThinkingBudget request <
      anthropicMaxTokens request

/-- The document is a value the decoder keeps. -/
def Retained (request : CanonicalRequest) : Prop :=
  (anthropicDocument request .text).norm.toVec.length ≤
    default.maxRetainedValueBytes

/-! ## Parts of the document -/

abbrev sentDocument (request : CanonicalRequest) : Json := (anthropicDocument request .text).norm

theorem lookup_anthropicDocument (request : CanonicalRequest) :
    ∃ fs, anthropicDocument request .text = .obj fs ∧ (fs.map Prod.fst).Nodup ∧
      fs.lookup "messages" = some (.arr [.obj [
        ("role", .str "user"),
        ("content", .arr (request.input.map anthropicBlock))]]) ∧
      (request.tools ≠ [] → fs.lookup "tools" = some (.arr (request.tools.map anthropicTool))) := by
  refine ⟨_, rfl, ?_, rfl, ?_⟩
  · by_cases ht : request.tools = [] <;> cases hr : request.reasoning.isSome <;>
      simp [toolsMember, ht]
  · intro ht
    simp [toolsMember, ht, lookup_cons]

theorem partOf_block {item : InputItem} (hi : item ∈ request.input) :
    (anthropicBlock item).norm.PartOf (sentDocument request) := by
  obtain ⟨fs, hfs, hnd, hmessages, -⟩ := lookup_anthropicDocument request
  have hblock : (anthropicBlock item).norm.PartOf (arr (request.input.map anthropicBlock)).norm :=
    partOf_norm_arr (mem_map_of_mem hi)
  have hmessage : (anthropicBlock item).norm.PartOf (obj [("role", .str "user"),
      ("content", .arr (request.input.map anthropicBlock))]).norm :=
    hblock.trans (partOf_norm_obj (k := "content") (by simp) rfl)
  rw [sentDocument, hfs]
  refine (hmessage.trans ?_).trans (partOf_norm_obj hnd hmessages)
  exact partOf_norm_arr mem_cons_self

theorem partOf_schema (ht : tool ∈ request.tools) :
    tool.inputSchema.tree.PartOf (sentDocument request) := by
  obtain ⟨fs, hfs, hnd, -, htools⟩ := lookup_anthropicDocument request
  have hschema : tool.inputSchema.tree.norm.PartOf (anthropicTool tool).norm :=
    partOf_norm_obj (k := "input_schema") (by simp) rfl
  have hlist := hschema.trans (partOf_norm_arr (mem_map_of_mem ht))
  rw [sentDocument, hfs, ← tool.inputSchema.normal]
  exact hlist.trans (partOf_norm_obj hnd (htools (ne_nil_of_mem ht)))

theorem partOf_output {callId : String} {output : Value}
    (hi : .toolResult callId output ∈ request.input) :
    output.tree.PartOf (sentDocument request) := by
  have houtput : output.tree.norm.PartOf (anthropicBlock (.toolResult callId output)).norm :=
    partOf_norm_obj (k := "content") (by simp) rfl
  rw [← output.normal]
  exact houtput.trans (partOf_block hi)

theorem partOf_source {url : Url} {detail : Option ImageDetail}
    (hi : .imageUrl url detail ∈ request.input) :
    (AnthropicSource.url url.serialization .empty).toJson.toValue.tree.PartOf
    (sentDocument request) := by
  have hsource : (AnthropicSource.url url.serialization .empty).toJson.norm.PartOf
      (anthropicBlock (.imageUrl url detail)).norm :=
    partOf_norm_obj (k := "source") (by simp) rfl
  exact hsource.trans (partOf_block hi)

/-- A part of a retained document is small enough to be retained. -/
theorem validateValue_of_partOf {v : Value} (h : Retained request)
    (hpart : v.tree.PartOf (sentDocument request)) : default.validateValue v = .ok () :=
  requireThat_eq_ok.mpr (decide_eq_true (hpart.length_toVec.trans h))

/-! ## The blocks and the tools -/

theorem parse_of_decodeImageUrl {url : Url} (h : decodeImageUrl P value = .ok url) :
    P.url.parse value = some url := by
  unfold decodeImageUrl at h
  repeat' split at h
  all_goals cases h
  all_goals assumption

/-- What the check of a block asks of the item it was made of. -/
def BlockFits : InputItem → Prop
  | .text _ => True
  | .imageUrl url _ => isHttpScheme url.scheme = true
  | .toolResult callId _ => callId.utf8ByteSize ≤ default.maxIdentifierBytes

theorem validateIdentifier_iff {limits : AnthropicInboundLimits} (h : value ≠ "") :
    limits.validateIdentifier value = .ok () ↔ value.utf8ByteSize ≤ limits.maxIdentifierBytes := by
  rw [AnthropicInboundLimits.validateIdentifier, requireThat_eq_ok]
  simp [h]

theorem validateBlock_iff (h : Wellformed P request) (hr : Retained request) {item : InputItem}
    (hi : item ∈ request.input) :
    validateBlock P .default .user (.known (anthropicWireBlock item)) = .ok () ↔
      BlockFits item := by
  cases item with
  | text text => exact ⟨fun _ => trivial, fun _ => rfl⟩
  | imageUrl url detail =>
    have hparse := parse_of_decodeImageUrl (h.image url detail hi)
    have hsize := validateValue_of_partOf hr (partOf_source hi)
    have hkind : validateSourceKind P false (.url url.serialization .empty) =
        requireThat (isHttpScheme url.scheme) := by
      rw [validateSourceKind, hparse]
      rfl
    change (validateSourceKind P false (.url url.serialization .empty) >>= fun _ =>
      validateValue .default _) = .ok () ↔ _
    rw [hkind, do_eq_ok]
    constructor
    · rintro ⟨_, hscheme, -⟩
      exact requireThat_eq_ok.mp hscheme
    · intro hscheme
      exact ⟨(), requireThat_eq_ok.mpr hscheme, hsize⟩
  | toolResult callId output =>
    have hsize := validateValue_of_partOf hr (partOf_output hi)
    have hcontent : validateOptional default.validateValue (present output) =
        .ok () := by
      unfold present
      split
      · rfl
      · exact hsize
    change (default.validateIdentifier callId >>= fun _ =>
      validateOptional default.validateValue (present output)) = .ok () ↔ _
    rw [BlockFits, hcontent, do_eq_ok, ← validateIdentifier_iff (h.callId callId output hi)]
    constructor
    · rintro ⟨_, hid, -⟩
      exact hid
    · intro hid
      exact ⟨(), hid, rfl⟩

theorem utf8ByteSize_le_of_validChatFunctionName {name : String}
    (h : validChatFunctionName name = true) :
    name.utf8ByteSize ≤ default.maxIdentifierBytes := by
  unfold validChatFunctionName at h
  simp only [Bool.and_eq_true, decide_eq_true_eq] at h
  have : name.utf8ByteSize ≤ 64 := by omega
  exact this.trans (by decide)

theorem validateTool_ok (h : Wellformed P request) (hr : Retained request)
    (ht : tool ∈ request.tools) :
    validateTool .default (.client (anthropicWireTool tool)) = .ok () := by
  have hname := h.name tool ht
  have hidentifier : default.validateIdentifier tool.name = .ok () :=
    (validateIdentifier_iff (ne_empty_of_validChatFunctionName hname)).mpr
      (utf8ByteSize_le_of_validChatFunctionName hname)
  have hobject : requireThat tool.inputSchema.tree.isObject = .ok () :=
    requireThat_eq_ok.mpr (h.schema tool ht)
  change (default.validateIdentifier tool.name >>= fun _ =>
    requireThat tool.inputSchema.tree.isObject >>= fun _ =>
      default.validateValue tool.inputSchema) = .ok ()
  rw [hidentifier, hobject]
  exact validateValue_of_partOf hr (partOf_schema ht)

/-! ## The request -/

theorem anthropicMaxTokens_pos (request : CanonicalRequest) : 0 < anthropicMaxTokens request := by
  unfold anthropicMaxTokens
  cases h : (((request.extensions.get? "max_output_tokens").bind fun v => v.tree.asU64).filter
    (· > 0)) with
  | none => simp
  | some n =>
    have hn := (Option.filter_eq_some_iff.mp h).2
    simpa using hn

/-- The blocks are counted, and checked one by one. -/
theorem validateBlocks_anthropicWire_iff (hinput : request.input ≠ []) {count : Nat} :
    validateBlocks P .default (anthropicWire request) = .ok count ↔
      (∀ item ∈ request.input,
        validateBlock P .default .user (.known (anthropicWireBlock item)) = .ok ()) ∧
      count = satAdd u64Max 0 request.input.length := by
  simp only [validateBlocks, anthropicWire, countBlocks, validateContent, AnthropicRole.context,
    do_ok, forM_eq_ok, checks_ok, forall_mem_map, isEmpty_map, length_map]
  constructor
  · rintro ⟨_, ⟨-, hblocks, rfl⟩, hcount⟩
    cases hcount
    exact ⟨hblocks, rfl⟩
  · rintro ⟨hblocks, rfl⟩
    exact ⟨_, ⟨by simpa using hinput, hblocks, rfl⟩, rfl⟩

theorem satAdd_le_iff {n limit : Nat} (h : limit < u64Max) : satAdd u64Max 0 n ≤ limit ↔
    n ≤ limit := by
  unfold satAdd
  omega

theorem validateThinking_anthropicWire_iff (request : CanonicalRequest) :
    validateOptional (validateThinking · (anthropicWire request).maxTokens true)
        (anthropicWire request).thinking = .ok () ↔
      (request.reasoning.isSome = true → 1024 ≤ anthropicThinkingBudget request ∧
        anthropicThinkingBudget request < anthropicMaxTokens request) := by
  cases hr : request.reasoning.isSome with
  | false =>
    simp only [anthropicWire, hr]
    exact ⟨fun _ h => absurd h (by simp), fun _ => rfl⟩
  | true =>
    simp only [anthropicWire, hr, if_true, validateOptional, validateThinking, forall_const]
    rw [requireThat_eq_ok]
    simp only [Bool.true_and, Option.any_some, Bool.not_eq_true', Bool.or_eq_false_iff,
      decide_eq_false_iff_not, not_lt, ge_iff_le, not_le]

/-- The decoder's checks of a body of the encoder. -/
theorem validateRequest_anthropicWire_iff (h : Wellformed P request) (hinput : request.input ≠ [])
    (hr : Retained request) :
    Inbound.validateRequest P .default (anthropicWire request) true = .ok () ↔
      AnthropicFits request := by
  have hshape : requireThat (!((anthropicWire request).messages.isEmpty
      || (anthropicWire request).messages.length > default.maxMessages
      || true && (anthropicWire request).maxTokens.all (· == 0)
      || !true && (anthropicWire request).maxTokens.isSome
      || !true && (anthropicWire request).stream)) = .ok () := by
    refine requireThat_eq_ok.mpr ?_
    have hpos := anthropicMaxTokens_pos request
    simp [anthropicWire, AnthropicInboundLimits.default]
    omega
  have htools : (anthropicWire request).tools.forM (validateTool .default) = .ok () := by
    refine forM_eq_ok.mpr fun wire hw => ?_
    obtain ⟨tool, ht, rfl⟩ := mem_map.mp hw
    exact validateTool_ok h hr ht
  simp only [Inbound.validateRequest, hshape, htools, do_ok,
    validateBlocks_anthropicWire_iff hinput, validateThinking_anthropicWire_iff]
  simp only [checks_ok, Bool.not_eq_true', Bool.or_eq_false_iff, decide_eq_false_iff_not, not_lt]
  constructor
  · rintro ⟨hmodel, -, count, ⟨hitems, rfl⟩, hcounts, -, -, hthinking⟩
    have hfits := fun item hi => (validateBlock_iff h hr hi).mp (hitems item hi)
    exact {
      model := (validateIdentifier_iff h.model).mp hmodel
      callId := fun callId output hi => hfits _ hi
      image := fun url detail hi => hfits _ hi
      inputLength := (satAdd_le_iff (by decide)).mp hcounts.1
      toolsLength := by simpa [anthropicWire] using hcounts.2
      thinking := hthinking }
  · intro hf
    have hitems : ∀ item ∈ request.input,
        validateBlock P .default .user (.known (anthropicWireBlock item)) = .ok () := by
      intro item hi
      refine (validateBlock_iff h hr hi).mpr ?_
      cases item with
      | text text => trivial
      | imageUrl url detail => exact hf.image url detail hi
      | toolResult callId output => exact hf.callId callId output hi
    have htools : (anthropicWire request).tools.length ≤ default.maxTools := by
      simpa [anthropicWire] using hf.toolsLength
    exact ⟨(validateIdentifier_iff h.model).mpr hf.model, trivial, _, ⟨hitems, rfl⟩,
      ⟨(satAdd_le_iff (by decide)).mpr hf.inputLength, htools⟩, trivial, rfl, hf.thinking⟩

/-! ## What comes back -/

/-- An item after it went out and came in again: a null output is an empty text now. -/
def anthropicAgain : InputItem → InputItem
  | .text text => .text text
  | .imageUrl url _ => .imageUrl url none
  | .toolResult callId output => .toolResult callId ((present output).getD (.ofStr ""))

theorem face_anthropicAgain (item : InputItem) : (anthropicAgain item).face = item.face := by
  cases item <;> rfl

theorem extractBlocks_anthropicWireBlock (h : Wellformed P request) {items : List InputItem}
    (hi : ∀ item ∈ items, item ∈ request.input) (place : ContentPlace) (index : Nat) :
    extractBlocks P place index (items.map fun item => .known (anthropicWireBlock item)) =
      .ok (items.map anthropicAgain, []) := by
  induction items generalizing index with
  | nil => rfl
  | cons item items ih =>
    have hblock : extractBlock P place index (.known (anthropicWireBlock item)) =
        .ok ([anthropicAgain item], []) := by
      cases item with
      | text | toolResult => rfl
      | imageUrl url detail =>
        have hparse := parse_of_decodeImageUrl (h.image url detail (hi _ mem_cons_self))
        simp only [anthropicWireBlock, extractBlock, sourceUrl, hparse]
        rfl
    rw [map_cons, extractBlocks, hblock]
    change (extractBlocks P place (index + 1) _ >>= _) = _
    rw [ih (fun x hx => hi x (mem_cons_of_mem _ hx)) (index + 1)]
    rfl

theorem extractRequest_anthropicWire (h : Wellformed P request)
    (hlength : request.input.length ≤ default.maxContentBlocks) :
    extractRequest P .default (anthropicWire request) = .ok (request.input.map anthropicAgain,
      []) := by
  have hblocks := extractBlocks_anthropicWireBlock h (fun _ (hi : _ ∈ request.input) => hi)
    (some (0, .user)) 0
  have hcontent : extractContent P .default
      (.blocks (request.input.map fun item => .known (anthropicWireBlock item)))
      (some (0, .user)) [] [] = .ok (request.input.map anthropicAgain, []) := by
    rw [extractContent, extractParts, hblocks]
    change (requireThat _ >>= _) = _
    rw [requireThat_eq_ok (u := ()) |>.mpr (by simpa using hlength)]
    rfl
  rw [extractRequest, anthropicWire]
  dsimp only
  rw [extractMessages, hcontent]
  rfl

theorem clientTools_anthropicWire (request : CanonicalRequest) :
    (anthropicWire request).tools.filterMap clientTool = request.tools.map toolAgain := by
  rw [anthropicWire, filterMap_map]
  exact congrFun filterMap_eq_map' request.tools

theorem validateValue_anthropicDocument_iff (request : CanonicalRequest) :
    default.validateValue (sentDocument request).toValue = .ok () ↔
      Retained request := by
  rw [validateValue, requireThat_eq_ok, decide_eq_true_iff,
    toValue_tree, norm_norm]
  rfl

/-- The Anthropic decoder accepts a body only if the request fits and its document can be kept. -/
theorem fits_of_anthropic_accepts {again : CanonicalRequest} (h : Wellformed P request)
    (hinput : request.input ≠ []) {requestId : String}
    (hok : decodeAnthropicWire P .default true requestId (sentDocument request)
      (anthropicWire request) = .ok again) : AnthropicFits request ∧ Retained request := by
  obtain ⟨_, hvalid, hok⟩ := do_eq_ok.mp hok
  obtain ⟨_, hkeep, -⟩ := do_eq_ok.mp hok
  have hr := (validateValue_anthropicDocument_iff request).mp hkeep
  exact ⟨(validateRequest_anthropicWire_iff h hinput hr).mp hvalid, hr⟩

/-- The body of a request that fits is accepted and says the same. -/
theorem anthropic_accepts (h : Wellformed P request) (hinput : request.input ≠ [])
    (hf : AnthropicFits request) (hr : Retained request) (requestId : String) :
    ∃ again, decodeAnthropicWire P .default true requestId (sentDocument request)
      (anthropicWire request) = .ok again ∧ SameRequest request again := by
  have hvalid := (validateRequest_anthropicWire_iff h hinput hr).mpr hf
  have hok : decodeAnthropicWire P .default true requestId (sentDocument request)
      (anthropicWire request) = .ok {
        requestId
        model := request.model
        threadKey := none
        input := request.input.map anthropicAgain
        tools := request.tools.map toolAgain
        stream := request.stream
        reasoning := (anthropicWire request).thinking.map anthropicReasoning
        extensions := EntryMap.empty.insert "anthropic.request"
          (sentDocument request).toValue } := by
    unfold decodeAnthropicWire
    rw [hvalid, (validateValue_anthropicDocument_iff request).mpr hr,
      extractRequest_anthropicWire h hf.inputLength, clientTools_anthropicWire]
    rfl
  refine ⟨_, hok, rfl, rfl, ?_, ?_⟩
  · simp [Function.comp_def, face_anthropicAgain]
  · simp [Function.comp_def, ToolDefinition.face, toolAgain]

/-- Whether a request fits depends on the faces of its items and the number of its tools. -/
theorem AnthropicFits.of_faces {input input' : List InputItem} {tools tools' : List ToolDefinition}
    (h : AnthropicFits { request with input, tools })
    (hfaces : input'.map InputItem.face = input.map InputItem.face)
    (htools : tools'.length = tools.length) :
    AnthropicFits { request with input := input', tools := tools' } := by
  have hinput : input'.length = input.length := by simpa using congrArg length hfaces
  refine ⟨h.model, fun callId output hmem => ?_, fun url detail hmem => ?_,
    hinput.trans_le h.inputLength, htools.trans_le h.toolsLength, h.thinking⟩
  · obtain ⟨output', hmem⟩ := mem_toolResult_of_faces hfaces hmem
    exact h.callId callId output' hmem
  · obtain ⟨detail', hmem⟩ := mem_imageUrl_of_faces hfaces hmem
    exact h.image url detail' hmem

/-- A request fits exactly if it fits when it is read again. -/
theorem AnthropicFits.reread {F : FloatReader} {request' : CanonicalRequest}
    (hr : ClientProtocol.anthropic.rereadRequest F request = some request') :
    AnthropicFits request' ↔ AnthropicFits request := by
  obtain ⟨input, tools, hi, ht, rfl⟩ := of_rereadRequest hr
  have hfaces := faces_rereadInput hi
  have htools : tools.length = request.tools.length := (mapM_eq_some.mp ht).length_eq.symm
  exact ⟨fun h => h.of_faces hfaces.symm htools.symm, fun h => h.of_faces hfaces htools⟩

end Wokcore.Protocols
