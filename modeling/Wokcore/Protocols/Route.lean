import Wokcore.Protocols.Upstream.ReadBack
import Wokcore.Lib.Json.Depth

/-!
# Routes from a client to an upstream

A request takes one of three client decoders in and one of the encoders of the upstream adapter out.
For the three protocols that have both, `ClientProtocol` names the decoder and the encoder together,
and `buildRequest_ok` says all that a successful build tells: the body is the bytes of the
protocol's document, and the request passed the checks of the adapter.
-/

set_option autoImplicit false

namespace Wokcore.Protocols

open Lib Outcome Wokcore.Core Inbound Upstream

variable {adapter : UpstreamAdapter} {requestId : String}

/-- A protocol the gateway speaks to clients and to upstreams. -/
inductive ClientProtocol where
  | chat
  | responses
  | anthropic
deriving DecidableEq, Repr

namespace ClientProtocol

def upstream : ClientProtocol → UpstreamProtocol
  | .chat => .openAiChat
  | .responses => .openAiResponses
  | .anthropic => .anthropic

/-- `ChatCodec::decode_request`, `ResponsesCodec::decode_request`,
    `AnthropicCodec::decode_message`. -/
def decode (P : Parsers) (requestId : String) (json : Bytes) : ClientProtocol →
    Result CanonicalRequest
  | .chat => decodeChatRequest P requestId json
  | .responses => decodeResponsesRequest P requestId json
  | .anthropic => decodeAnthropicMessage P requestId json

/-- What is left of decoding once the document is read. -/
def decodeDocument (P : Parsers) (requestId : String) (document : Json) :
    ClientProtocol → Result CanonicalRequest
  | .chat => orInvalid (readChatRequest document) >>= decodeChatWire P requestId
  | .responses => orInvalid (readResponsesRequest document) >>= decodeResponsesWire P requestId
  | .anthropic => orInvalid (readAnthropicRequest document) >>=
      decodeAnthropicWire P .default true requestId document

/-- The document the encoder of the protocol writes. -/
def document (request : CanonicalRequest) : ClientProtocol → Json
  | .chat => chatDocument request
  | .responses => responsesDocument request
  | .anthropic => anthropicDocument request .text

/-- The body that goes to the upstream for the body of a client. -/
def route (P : Parsers) (adapter : UpstreamAdapter) (requestId : String) (json : Bytes)
    (p : ClientProtocol) : Result Bytes := do
  let request ← p.decode P requestId json
  let outbound ← adapter.buildRequest P.url request .text
  return outbound.body

end ClientProtocol

/-- Parsers that keep floats as they are written and know plain URLs. -/
def plainParsers : Parsers := ⟨exactFloats, plainUrls⟩

/-- An adapter with the default limits. -/
def plainAdapter (protocol : UpstreamProtocol) : UpstreamAdapter :=
  ⟨protocol, plainUrl "https" "upstream.test" "/", .default⟩

/-- A request of the given items and nothing else. -/
def plainRequest (input : List InputItem) : CanonicalRequest where
  requestId := "r"
  model := "m"
  threadKey := none
  input
  tools := []
  stream := false
  reasoning := none
  extensions := .empty

/-- A message of a client's body. -/
def spoken (role text : String) : Json := .obj [("role", .str role), ("content", .str text)]

variable {p : ClientProtocol} {P : Parsers} {document : Json} {sent : Bytes}

/-- A printed document is decoded as the document; for the Anthropic protocol it may not be too
    long. -/
theorem decode_toVec (hread : fromSlice P.floats document.toVec = some document)
    (hlength : p = .anthropic → document.toVec.length ≤
    AnthropicInboundLimits.default.maxRequestBytes) :
    p.decode P requestId document.toVec = p.decodeDocument P requestId document := by
  have hbody : readBody P document.toVec = .ok document := by rw [readBody, hread]; rfl
  cases p with
  | chat => rw [ClientProtocol.decode, decodeChatRequest, hbody]; rfl
  | responses => rw [ClientProtocol.decode, decodeResponsesRequest, hbody]; rfl
  | anthropic =>
    have hlength := hlength rfl
    rw [ClientProtocol.decode, decodeAnthropicMessage, decodeMessageWithLimits, hbody,
      Result.requireThat_eq_ok (u := ()) |>.mpr (by simpa using hlength)]
    rfl

/-- What the adapter checks of a request before it sends it. -/
structure Sendable (limits : UpstreamLimits) (request : CanonicalRequest) : Prop where
  model : validateIdentifier request.model limits.maxIdentifierBytes = .ok ()
  inputLength : request.input.length ≤ limits.maxCollectionItems
  toolsLength : request.tools.length ≤ limits.maxCollectionItems
  item : ∀ item ∈ request.input, validateItem limits item = .ok ()
  tool : ∀ tool ∈ request.tools, checkTool limits tool = .ok ()

namespace UpstreamAdapter

open Result

variable {request : CanonicalRequest} {limits : UpstreamLimits} {out : UpstreamRequest}
    {U : UrlLibrary}

theorem validateRequest_ok {u : Unit} (h : Upstream.validateRequest request limits = .ok u) :
    validateIdentifier request.model limits.maxIdentifierBytes = .ok () ∧
      request.input.length ≤ limits.maxCollectionItems ∧
      request.tools.length ≤ limits.maxCollectionItems ∧
      ∀ item ∈ request.input, validateItem limits item = .ok () := by
  obtain ⟨_, hm, h⟩ := do_eq_ok.mp h
  obtain ⟨_, hl, h⟩ := do_eq_ok.mp h
  have hl := requireThat_eq_ok.mp hl
  simp only [Bool.not_eq_true', Bool.or_eq_false_iff, decide_eq_false_iff_not, not_lt] at hl
  exact ⟨hm, hl.1, hl.2, forM_eq_ok.mp h⟩

theorem checkContents_ok {u : Unit} (h : checkContents request limits = .ok u) :
    ∀ tool ∈ request.tools, checkTool limits tool = .ok () := by
  obtain ⟨_, -, h⟩ := do_eq_ok.mp h
  obtain ⟨_, ht, -⟩ := do_eq_ok.mp h
  exact forM_eq_ok.mp ht

theorem jsonRequest_ok {url : Url} {doc : Json} {stream : Bool}
    (h : jsonRequest limits url doc stream = .ok out) :
    out.body = doc.norm.toVec ∧ out.body.length ≤ limits.maxRequestBodyBytes := by
  obtain ⟨_, hl, h⟩ := do_eq_ok.mp h
  have hl := requireThat_eq_ok.mp hl
  simp only [Bool.not_eq_true', decide_eq_false_iff_not, not_lt] at hl
  cases h
  exact ⟨rfl, hl⟩

/-- **What a successful build tells.** -/
theorem buildRequest_ok (hp : adapter.protocol = p.upstream)
    (h : adapter.buildRequest U request .text = .ok out) :
    Sendable adapter.limits request ∧ out.body = (p.document request).norm.toVec ∧
      out.body.length ≤ adapter.limits.maxRequestBodyBytes := by
  obtain ⟨_, hv, h⟩ := do_eq_ok.mp h
  obtain ⟨hm, hi, ht, hitems⟩ := validateRequest_ok hv
  rw [hp] at h
  cases p with
  | chat =>
    obtain ⟨body, hb, h⟩ := do_eq_ok.mp h
    obtain ⟨_, hc, hb⟩ := do_eq_ok.mp hb
    obtain ⟨url, -, h⟩ := do_eq_ok.mp h
    cases hb
    exact ⟨⟨hm, hi, ht, hitems, checkContents_ok hc⟩, jsonRequest_ok h⟩
  | responses =>
    obtain ⟨_, hc, h⟩ := do_eq_ok.mp h
    obtain ⟨url, -, h⟩ := do_eq_ok.mp h
    exact ⟨⟨hm, hi, ht, hitems, checkContents_ok hc⟩, jsonRequest_ok h⟩
  | anthropic =>
    obtain ⟨_, -, h⟩ := do_eq_ok.mp h
    obtain ⟨_, hc, h⟩ := do_eq_ok.mp h
    obtain ⟨url, -, h⟩ := do_eq_ok.mp h
    obtain ⟨sent, hs, h⟩ := do_eq_ok.mp h
    cases h
    obtain ⟨hbody, hlength⟩ := jsonRequest_ok hs
    exact ⟨⟨hm, hi, ht, hitems, forM_eq_ok.mp hc⟩, hbody, hlength⟩

/-- The Chat encoder has also checked the effort. -/
theorem checkEffort_of_buildRequest (hp : adapter.protocol = .openAiChat)
    (h : adapter.buildRequest U request .text = .ok out) : checkEffort request = .ok () := by
  obtain ⟨_, -, h⟩ := do_eq_ok.mp h
  rw [hp] at h
  obtain ⟨_, hb, -⟩ := do_eq_ok.mp h
  obtain ⟨_, hc, -⟩ := do_eq_ok.mp hb
  obtain ⟨_, -, hc⟩ := do_eq_ok.mp hc
  obtain ⟨_, -, hc⟩ := do_eq_ok.mp hc
  exact hc

end UpstreamAdapter

theorem route_ok {json : Bytes} (h : p.route P adapter requestId json = .ok sent) :
    ∃ request out, p.decode P requestId json = .ok request ∧
      adapter.buildRequest P.url request .text = .ok out ∧ out.body = sent := by
  obtain ⟨request, hd, h⟩ := Outcome.do_eq_ok.mp h
  obtain ⟨out, hb, h⟩ := Outcome.do_eq_ok.mp h
  cases h
  exact ⟨request, out, hd, hb, rfl⟩

/-- The route of a printed document. -/
theorem route_toVec (hread : fromSlice P.floats document.toVec = some document)
    (hlength : p = .anthropic → document.toVec.length ≤
    AnthropicInboundLimits.default.maxRequestBytes)
    (h : ((p.decodeDocument P requestId document).bind fun request =>
      (adapter.buildRequest P.url request .text).map UpstreamRequest.body) = .ok sent) :
    p.route P adapter requestId document.toVec = .ok sent := by
  rw [ClientProtocol.route, decode_toVec hread hlength]
  refine Eq.trans ?_ h
  refine congrArg _ (funext fun request => ?_)
  cases adapter.buildRequest P.url request .text <;> rfl

end Wokcore.Protocols
