import Wokcore.Protocols.AcceptAnthropic

/-!
# Bodies the gateway would accept itself

A request from any of the three decoders is built for one of the three protocols, and the decoder of
that protocol is given the body. `Acceptable` is the exact condition under which it accepts the body
and makes the same request of it.
-/

set_option autoImplicit false

namespace Wokcore.Protocols

open Lib Wokcore.Core Inbound Upstream ToolDefinition AnthropicInboundLimits ClientProtocol

variable {request : CanonicalRequest} {q : ClientProtocol}

/-! ## How deep the body may be -/

theorem outputNesting_le (q : ClientProtocol) : q.outputNesting ≤ chat.outputNesting := by
  cases q <;> decide

/-- A request whose document is not too deep has no schema and no output that is. -/
theorem nested_of_depth {p : ClientProtocol} (hq : Nested q request)
    (hobject : ∀ tool ∈ request.tools, tool.inputSchema.tree.isObject = true)
    (h : (p.document request).norm.depth ≤ maxNesting) : Nested p request := by
  have h : (p.document request).norm.depth ≤ 127 := h
  cases p with
  | chat =>
    obtain ⟨-, htools⟩ := depth_readChatRequest (readChatRequest_chatDocument request)
    refine ⟨fun tool ht => ?_, fun callId output hi => (hq.output callId output hi).trans
      (outputNesting_le q)⟩
    obtain ⟨j, hj, hdepth⟩ := htools (chatWireTool tool) (List.mem_map_of_mem ht)
    have hschema := depth_readChatTool hj (present_of_isObject (hobject tool ht))
    change tool.inputSchema.tree.depth ≤ 123
    change (chatDocument request).norm.depth ≤ 127 at h
    omega
  | responses =>
    obtain ⟨hinputs, htools⟩ := depth_readResponsesRequest
      (readResponsesRequest_responsesDocument request)
    change (responsesDocument request).norm.depth ≤ 127 at h
    refine ⟨fun tool ht => ?_, fun callId output hi => ?_⟩
    · obtain ⟨j, hj, hdepth⟩ := htools (responsesWireTool tool) (List.mem_map_of_mem ht)
      have hschema : tool.inputSchema.tree.depth + 1 ≤ j.depth := depth_readResponsesTool hj
      change tool.inputSchema.tree.depth ≤ 124
      omega
    · obtain ⟨j, hj, hdepth⟩ := hinputs _ rfl _ (List.mem_map_of_mem hi)
      have houtput : output.tree.depth + 1 ≤ j.depth := depth_readResponsesInputItem hj
      change output.tree.depth ≤ 124
      omega
  | anthropic =>
    obtain ⟨hmessages, htools⟩ :=
      depth_readAnthropicRequest (readAnthropicRequest_anthropicDocument request)
    change (anthropicDocument request .text).norm.depth ≤ 127 at h
    refine ⟨fun tool ht => ?_, fun callId output hi => ?_⟩
    · obtain ⟨j, hj, hdepth⟩ := htools _ (List.mem_map_of_mem ht)
      have hschema : tool.inputSchema.tree.depth + 1 ≤ j.depth := depth_readAnthropicToolWire hj
      change tool.inputSchema.tree.depth ≤ 124
      omega
    · by_cases hnull : output.tree = .null
      · rw [hnull]
        exact Nat.zero_le _
      obtain ⟨content, hcontent, hdepth⟩ := hmessages _ List.mem_cons_self
      obtain ⟨j, hj, hblock⟩ := depth_readAnthropicContent hcontent (List.mem_map_of_mem hi)
      have houtput : output.tree.depth + 1 ≤ j.depth :=
        depth_readContentBlock hj (by rw [present, if_neg hnull]; rfl)
      change output.tree.depth ≤ 122
      omega

/-! ## Reading the body again -/

/-- What was decoded and built is wellformed. -/
theorem wellformed_of_decode {P : Parsers} (L : LawfulUrls P.url) {requestId : String}
    {json : Bytes} (hdecode : q.decode P requestId json = .ok request)
    (hnames : ∀ tool ∈ request.tools, validChatFunctionName tool.name = true)
    {limits : UpstreamLimits} (hs : Sendable limits request) : Wellformed P request where
  model := ne_empty_of_validateIdentifier hs.model
  callId callId output hi := by
    obtain ⟨_, hid, -⟩ := Outcome.do_eq_ok.mp (hs.item _ hi)
    exact ne_empty_of_validateIdentifier hid
  image url detail hi := decode_imageUrl L hdecode hi
  name := hnames
  schema := decode_schema_isObject hdecode

/-- The body of a request is accepted if the request read again is, and the body could be read. -/
theorem decode_document_iff {p : ClientProtocol} {P : Parsers} {again : CanonicalRequest}
    (requestId : String) :
    p.decode P requestId (p.document request).norm.toVec = .ok again ↔
      (p = .anthropic → (p.document request).norm.toVec.length ≤
        default.maxRequestBytes) ∧
      (p.document request).norm.depth ≤ maxNesting ∧
      ∃ request', p.rereadRequest P.floats request = some request' ∧
        p.decodeDocument P requestId (p.document request').norm = .ok again := by
  have hread : ∀ document, readBody P (p.document request).norm.toVec = .ok document ↔
      (p.document request).norm.depth ≤ maxNesting ∧
      ∃ request', p.rereadRequest P.floats request = some request' ∧
        (p.document request').norm = document := by
    intro document
    rw [readBody, Result.orInvalid_eq_ok, fromSlice_document]
    split
    · next h => simp only [Option.map_eq_some_iff, h, true_and]
    · next h => simp [h]
  have hbody : ∀ (f : Json → Result CanonicalRequest),
      (readBody P (p.document request).norm.toVec >>= f) = .ok again ↔
        (p.document request).norm.depth ≤ maxNesting ∧
        ∃ request', p.rereadRequest P.floats request = some request' ∧
          f (p.document request').norm = .ok again := by
    intro f
    rw [Outcome.do_eq_ok]
    constructor
    · rintro ⟨document, hdoc, hf⟩
      obtain ⟨hdepth, request', hr, rfl⟩ := (hread document).mp hdoc
      exact ⟨hdepth, request', hr, hf⟩
    · rintro ⟨hdepth, request', hr, hf⟩
      exact ⟨_, (hread _).mpr ⟨hdepth, request', hr, rfl⟩, hf⟩
  cases p with
  | chat | responses =>
    refine (hbody _).trans ?_
    simp [decodeDocument]
  | anthropic =>
    change (requireThat _ >>= fun _ => readBody P _ >>= fun document => _) = .ok again ↔ _
    rw [Outcome.do_eq_ok]
    constructor
    · rintro ⟨_, hlength, hok⟩
      have hlength := Result.requireThat_eq_ok.mp hlength
      exact ⟨fun _ => by simpa using hlength, (hbody _).mp hok⟩
    · rintro ⟨hlength, hok⟩
      refine ⟨(), Result.requireThat_eq_ok.mpr ?_, (hbody _).mpr hok⟩
      simpa using hlength rfl

/-! ## The condition -/

theorem names_reread {F : FloatReader} {tools tools' : List ToolDefinition}
    (h : tools.mapM (reread F) = some tools') : tools'.map name = tools.map name := by
  have hall := Outcome.mapM_eq_some.mp h
  clear h
  induction hall with
  | nil => rfl
  | cons ht _ ih => rw [List.map_cons, List.map_cons, ih, (of_tool_reread ht).1]

namespace ClientProtocol

/-- What the decoder of the protocol asks of a document the encoder has made of the request. -/
def Fits (request : CanonicalRequest) : ClientProtocol → Prop
  | .chat => (request.tools.map name).Nodup
  | .responses => True
  | .anthropic => AnthropicFits request ∧ Retained request

/-- When the body of a request is accepted as the same request. Its values must not be too deep and
    the schemas must be read back as they are. Then Chat wants different tool names, Responses
    outputs that can be read back, and Anthropic a request within its limits, with a body that is
    not too long, whose value can be kept. -/
def Acceptable (F : FloatReader) (request : CanonicalRequest) (p : ClientProtocol) : Prop :=
  Nested p request ∧ SchemasStable F request ∧
    match p with
    | .chat => (request.tools.map name).Nodup
    | .responses => OutputsReadable F request
    | .anthropic => AnthropicFits request ∧
        (anthropicDocument request .text).norm.toVec.length ≤
          default.maxRequestBytes ∧
        ∃ request', anthropic.rereadRequest F request = some request' ∧ Retained request'

variable {P : Parsers} {request request' again : CanonicalRequest} {p : ClientProtocol}
    {F : FloatReader}

/-- The document of a wellformed request is accepted exactly if it fits, and says the same. -/
theorem decodeDocument_iff (h : Wellformed P request) (hinput : request.input ≠ [])
    (heffort : p = .chat → checkEffort request = .ok ()) (requestId : String) :
    (∀ again, p.decodeDocument P requestId (p.document request).norm = .ok again → p.Fits request) ∧
      (p.Fits request → ∃ again, p.decodeDocument P requestId (p.document request).norm =
        .ok again ∧ SameRequest request again) := by
  cases p with
  | chat =>
    have hread : decodeDocument P requestId (chatDocument request).norm .chat =
        decodeChatWire P requestId (chatWire request) := by
      rw [decodeDocument, readChatRequest_chatDocument]
      rfl
    refine ⟨fun again hok => names_of_chat_accepts h (hread.symm.trans hok), fun hnd => ?_⟩
    obtain ⟨again, hok, hsame⟩ := chat_accepts h hinput (heffort rfl) hnd requestId
    exact ⟨again, hread.trans hok, hsame⟩
  | responses =>
    have hread : decodeDocument P requestId (responsesDocument request).norm .responses =
        decodeResponsesWire P requestId (responsesWire request) := by
      rw [decodeDocument, readResponsesRequest_responsesDocument]
      rfl
    refine ⟨fun _ _ => trivial, fun _ => ?_⟩
    obtain ⟨again, hok, hsame⟩ := responses_accepts h requestId
    exact ⟨again, hread.trans hok, hsame⟩
  | anthropic =>
    have hread : decodeDocument P requestId (anthropicDocument request .text).norm .anthropic =
        decodeAnthropicWire P .default true requestId (anthropicDocument request .text).norm
          (anthropicWire request) := by
      rw [decodeDocument, readAnthropicRequest_anthropicDocument]
      rfl
    refine ⟨fun again hok => fits_of_anthropic_accepts h hinput (hread.symm.trans hok),
      fun hf => ?_⟩
    obtain ⟨again, hok, hsame⟩ := anthropic_accepts h hinput hf.1 hf.2 requestId
    exact ⟨again, hread.trans hok, hsame⟩

theorem outputsReadable_of_reread (hp : p ≠ .chat) (h : p.rereadRequest F request = some request') :
    OutputsReadable F request := by
  obtain ⟨input, tools, hi, -, -⟩ := of_rereadRequest h
  have hi : request.input.mapM (InputItem.reread F) = some input := by
    cases p with
    | chat => exact absurd rfl hp
    | responses | anthropic => exact hi
  intro callId output hmem
  have hitem := exists_mapM_iff.mp ⟨input, hi⟩ _ hmem
  simpa [InputItem.reread] using hitem

theorem reread_isSome (hs : SchemasStable F request) (ho : p ≠ .chat → OutputsReadable F request) :
    ∃ request', p.rereadRequest F request = some request' := by
  have htools : request.tools.mapM (reread F) = some request.tools :=
    mapM_eq_self.mpr fun tool ht => (reread_eq_self_iff tool).mpr (hs tool ht)
  have hinput : ∃ input, p.rereadInput F request.input = some input := by
    have hitems : p ≠ .chat → ∃ input, request.input.mapM (InputItem.reread F) = some input := by
      intro hp
      refine exists_mapM_iff.mpr fun item hi => ?_
      cases item with
      | text | imageUrl => rfl
      | toolResult callId output => simpa [InputItem.reread] using ho hp callId output hi
    cases p with
    | chat => exact ⟨_, rfl⟩
    | responses | anthropic => exact hitems (by decide)
  obtain ⟨input, hinput⟩ := hinput
  rw [rereadRequest, hinput, htools]
  exact ⟨_, rfl⟩

/-- **A body the gateway would accept itself.** The body built from a request that any of the three
    decoders made, with at least one item and tool names that Chat allows, is accepted by the
    decoder of the protocol it was built for, as a request that says the same, exactly if the
    request is acceptable. -/
theorem own_body_accepted_iff (L : LawfulUrls P.url) {q : ClientProtocol} {requestId : String}
    {json : Bytes} (hdecode : q.decode P requestId json = .ok request) (hinput : request.input ≠ [])
    (hnames : ∀ tool ∈ request.tools, validChatFunctionName tool.name = true)
    {adapter : UpstreamAdapter} (hp : adapter.protocol = p.upstream) {out : UpstreamRequest}
    (hbuild : adapter.buildRequest P.url request .text = .ok out) (againId : String) :
    (∃ again, p.decode P againId out.body = .ok again ∧ SameRequest request again) ↔
      p.Acceptable P.floats request := by
  obtain ⟨hs, hbody, -⟩ := UpstreamAdapter.buildRequest_ok hp hbuild
  have hw := wellformed_of_decode L hdecode hnames hs
  have heffort : p = .chat → checkEffort request = .ok () := by
    rintro rfl
    exact UpstreamAdapter.checkEffort_of_buildRequest hp hbuild
  -- what holds of the request holds of the request read again
  have hagain : ∀ request', p.rereadRequest P.floats request = some request' →
      Wellformed P request' ∧ request'.input ≠ [] ∧ (p = .chat → checkEffort request' = .ok ()) ∧
        request'.tools.map name = request.tools.map name := by
    intro request' hr
    have hw' := hw.reread hr
    obtain ⟨input, tools, hi, ht, rfl⟩ := of_rereadRequest hr
    refine ⟨hw', fun hnil => hinput ?_, heffort, names_reread ht⟩
    have hfaces := faces_rereadInput hi
    rw [show input = [] from hnil, List.map_nil] at hfaces
    exact List.map_eq_nil_iff.mp hfaces.symm
  rw [hbody]
  constructor
  · rintro ⟨again, hok, hsame⟩
    obtain ⟨hlength, hdepth, request', hr, hok⟩ := (decode_document_iff againId).mp hok
    obtain ⟨hw', hinput', heffort', hnames'⟩ := hagain request' hr
    obtain ⟨hfits, haccepts⟩ := decodeDocument_iff hw' hinput' heffort' againId
    have hfits := hfits again hok
    obtain ⟨_, hok', hsame'⟩ := haccepts hfits
    cases hok.symm.trans hok'
    refine ⟨nested_of_depth (decode_nested hdecode) hw.schema hdepth,
      (sameRequest_reread_iff hr hsame').mp hsame, ?_⟩
    cases p with
    | chat => exact hnames' ▸ hfits
    | responses => exact outputsReadable_of_reread (by decide) hr
    | anthropic => exact ⟨(AnthropicFits.reread hr).mp hfits.1, hlength rfl, request', hr, hfits.2⟩
  · rintro ⟨hnested, hstable, hcond⟩
    have hread : ∃ request', p.rereadRequest P.floats request = some request' ∧ p.Fits request' ∧
        (p = .anthropic → (p.document request).norm.toVec.length ≤
          default.maxRequestBytes) := by
      cases p with
      | chat =>
        obtain ⟨request', hr⟩ := reread_isSome hstable fun h => absurd rfl h
        refine ⟨request', hr, ?_, fun h => absurd h (by decide)⟩
        rw [Fits, (hagain request' hr).2.2.2]
        exact hcond
      | responses =>
        obtain ⟨request', hr⟩ := reread_isSome hstable fun _ => hcond
        exact ⟨request', hr, trivial, fun h => absurd h (by decide)⟩
      | anthropic =>
        obtain ⟨hfits, hlength, request', hr, hkeep⟩ := hcond
        exact ⟨request', hr, ⟨(AnthropicFits.reread hr).mpr hfits, hkeep⟩, fun _ => hlength⟩
    obtain ⟨request', hr, hfits, hlength⟩ := hread
    obtain ⟨hw', hinput', heffort', -⟩ := hagain request' hr
    obtain ⟨again, hok, hsame⟩ := (decodeDocument_iff hw' hinput' heffort' againId).2 hfits
    refine ⟨again, (decode_document_iff againId).mpr ⟨hlength, hnested.depth_document, request', hr,
      hok⟩, ?_⟩
    exact (sameRequest_reread_iff hr hsame).mpr hstable

/-- A question about a picture, with a tool. -/
def pictureQuestion : Json :=
  .obj [("model", .str "m"),
    ("messages", .arr [.obj [("role", .str "user"), ("content", .arr [
      .obj [("type", .str "text"), ("text", .str "what?")],
      .obj [("type", .str "image_url"), ("image_url", .obj [("url", .str "http://i.test/a")])]])]]),
    ("tools", .arr [.obj [("type", .str "function"), ("function", .obj [("name", .str "zoom")])]])]

/-- The request the Chat decoder makes of it. -/
def pictureRequest : CanonicalRequest :=
  { plainRequest [.text "what?", .imageUrl (plainUrl "http" "i.test" "/a") none] with
    tools := [⟨"zoom", none, .object .empty, .empty⟩]
    extensions := EntryMap.empty.insert "chat.messages" (Json.arr [.obj [
      ("content_form", .str "parts"), ("index", .ofNat 0), ("input_end", .ofNat 2),
      ("input_start", .ofNat 0), ("role", .str "user")]]).toValue }

theorem own_body_accepted_picture :
    chat.decode plainParsers "r" pictureQuestion.toVec = .ok pictureRequest ∧
    ∃ out again, (plainAdapter .anthropic).buildRequest plainUrls pictureRequest .text = .ok out ∧
      anthropic.decode plainParsers "s" out.body = .ok again ∧
      SameRequest pictureRequest again := by
  have hdecode : chat.decode plainParsers "r" pictureQuestion.toVec = .ok pictureRequest := by
    rw [decode_toVec (Json.fromSlice_exact (by decide +kernel)) (by simp)]
    decide +kernel
  obtain ⟨out, hbuild⟩ := Outcome.exists_of_isOk
    (x := (plainAdapter .anthropic).buildRequest plainUrls pictureRequest .text) (by decide +kernel)
  have hresult : ∀ callId output, .toolResult callId output ∉ pictureRequest.input := by
    intro callId output hi
    simp [pictureRequest, plainRequest] at hi
  have himage : ∀ url detail, .imageUrl url detail ∈ pictureRequest.input →
      isHttpScheme url.scheme = true := by
    intro url detail hi
    simp only [pictureRequest, plainRequest, List.mem_cons, List.not_mem_nil, or_false,
      reduceCtorEq, false_or, InputItem.imageUrl.injEq] at hi
    rw [hi.1]
    rfl
  have hacceptable : anthropic.Acceptable plainParsers.floats pictureRequest := by
    refine ⟨⟨by decide +kernel, fun callId output hi => absurd hi (hresult _ _)⟩, ?_, ?_, ?_,
      pictureRequest, by decide +kernel, ?_⟩
    · change ∀ tool ∈ pictureRequest.tools, _
      decide +kernel
    · exact ⟨by decide +kernel, fun callId output hi => absurd hi (hresult _ _), himage, by decide,
        by decide, fun h => absurd h (by decide)⟩
    · decide +kernel
    · change _ ≤ _
      decide +kernel
  obtain ⟨again, hok, hsame⟩ := (own_body_accepted_iff lawful_plainUrls hdecode (by decide)
    (by decide +kernel) rfl hbuild "s").mpr hacceptable
  exact ⟨hdecode, out, again, hbuild, hok, hsame⟩

/-- A message with a picture in it. -/
def inlinePicture : Json :=
  .obj [("model", .str "m"), ("max_tokens", .ofNat 16),
    ("messages", .arr [.obj [("role", .str "user"), ("content", .arr [
      .obj [("type", .str "image"), ("source", .obj [("type", .str "base64"),
        ("media_type", .str "image/png"), ("data", .str "AAAA")])]])]])]

/-- The request the Anthropic decoder makes of it: the picture is a `data` URL. -/
def inlinePictureRequest : CanonicalRequest :=
  { plainRequest [.imageUrl (plainUrl "data" "" "image/png;base64,AAAA") none] with
    extensions := EntryMap.empty.insert "anthropic.request" inlinePicture.toValue }

/-- The Anthropic decoder accepts the message, and refuses the body the Anthropic encoder makes of
    it. -/
theorem inline_picture_refused :
    anthropic.decode plainParsers "r" inlinePicture.toVec = .ok inlinePictureRequest ∧
    ∃ out, (plainAdapter .anthropic).buildRequest plainUrls inlinePictureRequest .text = .ok out ∧
      anthropic.decode plainParsers "s" out.body = .error .invalidRequest := by
  constructor
  · rw [decode_toVec (Json.fromSlice_exact (by decide +kernel)) fun _ => by decide +kernel]
    decide +kernel
  · have hsent : ((plainAdapter .anthropic).buildRequest plainUrls inlinePictureRequest .text).map
        UpstreamRequest.body = .ok (anthropicDocument inlinePictureRequest .text).norm.toVec := by
      decide +kernel
    cases h : (plainAdapter .anthropic).buildRequest plainUrls inlinePictureRequest .text with
    | error e => rw [h] at hsent; cases hsent
    | ok out =>
      rw [h] at hsent
      have hbody : out.body = (anthropicDocument inlinePictureRequest .text).norm.toVec :=
        Except.ok.inj hsent
      refine ⟨out, rfl, ?_⟩
      rw [hbody, decode_toVec (Json.fromSlice_exact (by decide +kernel)) fun _ => by decide +kernel]
      decide +kernel

end ClientProtocol

end Wokcore.Protocols
