import Wokcore.Protocols.Conversation

/-!
# The tool loop of a Chat conversation

An assistant message calls tools, and a tool message answers one of the calls. The decoder puts the
calls into the side table under `chat.messages`, which the encoder never reads: the calls are gone
on the way, and the answers, which are sent, answer nothing. So a route keeps the tool loop of a
conversation only where there is none.
-/

set_option autoImplicit false

namespace Wokcore.Protocols

open Lib Inbound Upstream

/-- A call of a tool, as the model made it. -/
structure CalledTool where
  id : String
  name : String
  arguments : String
deriving DecidableEq, Repr

/-- The calls an assistant message carries. -/
def messageCalls : ChatMessage → List CalledTool
  | .assistant _ toolCalls _ _ _ =>
    toolCalls.map fun call => ⟨call.id, call.function.name, call.function.arguments⟩
  | _ => []

/-- The call a tool message answers, and the text of the answer. -/
def messageAnswer : ChatMessage → Option (String × String)
  | .tool content toolCallId _ => some (toolCallId, .join (contentTexts textPartTexts content))
  | _ => none

/-- Every tool message follows an assistant message with the call it answers, where `called` are the
    ids of the calls made before. -/
def answersFollow : List String → List ChatMessage → Bool
  | _, [] => true
  | called, message :: messages =>
    (messageAnswer message).all (fun answer => called.contains answer.1)
      && answersFollow (called ++ (messageCalls message).map CalledTool.id) messages

/-- The tool loop of `sent` is that of `client`: the same calls, each as often; every answer after
    its call; and the answers word for word. -/
structure ToolLoopKept (client sent : List ChatMessage) : Prop where
  calls : (sent.flatMap messageCalls).Perm (client.flatMap messageCalls)
  follow : answersFollow [] sent = true
  answers : sent.filterMap messageAnswer = client.filterMap messageAnswer

/-- The messages of a Chat body. -/
def bodyMessages (F : FloatReader) (body : Bytes) : Option (List ChatMessage) :=
  ((fromSlice F body).bind readChatRequest).map ChatRequest.messages

theorem messageCalls_chatWireMessage (item : InputItem) :
    messageCalls (chatWireMessage item) = [] := by
  cases item <;> rfl

/-- No message that is sent carries a call. -/
theorem calls_chatWire (request : CanonicalRequest) :
    (chatWire request).messages.flatMap messageCalls = [] := by
  rw [chatWire, List.flatMap_map, List.flatMap_eq_nil_iff]
  exact fun item _ => messageCalls_chatWireMessage item

variable {messages : List ChatMessage}

/-- Where nothing was called nothing can be answered. -/
theorem answers_eq_nil (hcalls : messages.flatMap messageCalls = [])
    (h : answersFollow [] messages = true) :
    messages.filterMap messageAnswer = [] := by
  induction messages with
  | nil => rfl
  | cons message messages ih =>
    rw [List.flatMap_cons, List.append_eq_nil_iff] at hcalls
    rw [answersFollow, hcalls.1, Bool.and_eq_true] at h
    have hnone : messageAnswer message = none := by
      cases ha : messageAnswer message with
      | none => rfl
      | some answer => rw [ha] at h; exact absurd h.1 (by simp)
    rw [List.filterMap_cons, hnone]
    exact ih hcalls.2 h.2

theorem answersFollow_of_answers (called : List String)
    (h : messages.filterMap messageAnswer = []) :
    answersFollow called messages = true := by
  induction messages generalizing called with
  | nil => rfl
  | cons message messages ih =>
    cases ha : messageAnswer message with
    | some answer => rw [List.filterMap_cons, ha] at h; cases h
    | none =>
      rw [List.filterMap_cons, ha] at h
      rw [answersFollow, ha, ih _ h]
      rfl

variable {P : Parsers} {wire : ChatRequest} {request : CanonicalRequest}

/-- An answer that is sent was an answer of the client. -/
theorem answers_chatWire (h : ChatDecoded P wire request)
    (hnone : wire.messages.filterMap messageAnswer = []) :
    (chatWire request).messages.filterMap messageAnswer = [] := by
  rw [chatWire, List.filterMap_map, List.filterMap_eq_nil_iff]
  intro item hitem
  cases item with
  | text | imageUrl => rfl
  | toolResult callId output =>
    obtain ⟨groups, hg, hinput⟩ := h.input
    obtain ⟨message, hmem, group, hm, hi⟩ := of_mem_flatten hg (hinput ▸ hitem)
    obtain ⟨content, extra, form, rfl, -, -⟩ := hm.origin hi
    exact absurd (List.filterMap_eq_nil_iff.mp hnone _ hmem) (by simp [messageAnswer])

theorem toolLoopKept_chatWire_iff (h : ChatDecoded P wire request)
    (hfollow : answersFollow [] wire.messages = true) :
    ToolLoopKept wire.messages (chatWire request).messages ↔ wire.messages.flatMap messageCalls =
      [] := by
  constructor
  · intro hkept
    have hperm := hkept.calls
    rw [calls_chatWire] at hperm
    exact hperm.symm.eq_nil
  · intro hcalls
    have hclient := answers_eq_nil hcalls hfollow
    have hsent := answers_chatWire h hclient
    refine ⟨?_, answersFollow_of_answers [] hsent, ?_⟩
    · rw [hcalls, calls_chatWire]
    · rw [hclient, hsent]

/-- What a Chat route sends is the document of the decoded request. -/
theorem bodyMessages_of_route {adapter : UpstreamAdapter} {requestId : String} {json sent : Bytes}
    (hp : adapter.protocol = .openAiChat)
    (h : ClientProtocol.chat.route P adapter requestId json = .ok sent) :
    ∃ wire request, bodyMessages P.floats json = some wire.messages ∧ ChatDecoded P wire request ∧
      bodyMessages exactFloats sent = some (chatWire request).messages := by
  obtain ⟨request, out, hdecode, hbuild, rfl⟩ := route_ok h
  obtain ⟨-, hbody, -⟩ := UpstreamAdapter.buildRequest_ok (p := .chat) hp hbuild
  have hread := Json.fromSlice_exact (decode_nested hdecode).depth_document
  obtain ⟨document, wire, hdoc, hwire, hdecode⟩ := decodeChatRequest_ok hdecode
  refine ⟨wire, request, by simp [bodyMessages, hdoc, hwire], decodeChatWire_ok hdecode, ?_⟩
  rw [bodyMessages, hbody, hread, Option.bind_some, ClientProtocol.document,
    readChatRequest_chatDocument]
  rfl

/-- **A Chat route keeps the tool loop exactly if there are no tool calls.** For a conversation in
    which every tool message follows its call, what the route sends has the calls, their order and
    the answers of the client if no message of the client carries a call, and only then. -/
theorem toolLoop_kept_iff {P : Parsers} {adapter : UpstreamAdapter} {requestId : String}
    {json sent : Bytes} {client : List ChatMessage} (hp : adapter.protocol = .openAiChat)
    (h : ClientProtocol.chat.route P adapter requestId json = .ok sent)
    (hclient : bodyMessages P.floats json = some client)
    (hfollow : answersFollow [] client = true) :
    ∃ heard, bodyMessages exactFloats sent = some heard ∧
      (ToolLoopKept client heard ↔ client.flatMap messageCalls = []) := by
  obtain ⟨wire, request, hwire, hdecoded, hheard⟩ := bodyMessages_of_route hp h
  rw [hwire] at hclient
  cases hclient
  exact ⟨_, hheard, toolLoopKept_chatWire_iff hdecoded hfollow⟩

/-- A chat in which a tool was called and has answered. -/
def answeredCall : Json :=
  .obj [("model", .str "m"), ("messages", .arr [
    spoken "user" "2+2?",
    .obj [("role", .str "assistant"), ("tool_calls", .arr [
      .obj [("id", .str "c1"), ("type", .str "function"),
        ("function", .obj [("name", .str "add"), ("arguments", .str "[2,2]")])]])],
    .obj [("role", .str "tool"), ("tool_call_id", .str "c1"), ("content", .str "4")]])]

theorem answeredCall_read : fromSlice plainParsers.floats answeredCall.toVec = some answeredCall :=
  Json.fromSlice_exact (by decide +kernel)

theorem answeredCall_route :
    ClientProtocol.chat.route plainParsers (plainAdapter .openAiChat) "r" answeredCall.toVec =
      .ok (chatDocument (plainRequest [.text "2+2?", .toolResult "c1" (.ofStr "4")])).norm.toVec :=
  route_toVec answeredCall_read (by simp) (by decide +kernel)

/-- The condition fails at an answered call, and so the loop is not kept. -/
theorem toolLoop_kept_iff_answeredCall :
    ∃ sent client heard,
      ClientProtocol.chat.route plainParsers (plainAdapter .openAiChat) "r" answeredCall.toVec =
      .ok sent ∧ bodyMessages plainParsers.floats answeredCall.toVec = some client ∧
      answersFollow [] client = true ∧ bodyMessages exactFloats sent = some heard ∧
      ¬ToolLoopKept client heard := by
  obtain ⟨client, hclient, hfollow, hcalls⟩ : ∃ client,
      bodyMessages plainParsers.floats answeredCall.toVec = some client ∧
      answersFollow [] client = true ∧ client.flatMap messageCalls ≠ [] := by
    rw [bodyMessages, answeredCall_read]
    exact ⟨_, rfl, by decide +kernel, by decide +kernel⟩
  obtain ⟨heard, hheard, hiff⟩ := toolLoop_kept_iff rfl answeredCall_route hclient hfollow
  exact ⟨_, client, heard, answeredCall_route, hclient, hfollow, hheard, mt hiff.mp hcalls⟩

/-- The call does not reach the upstream, and the answer comes with quotes around it. -/
theorem call_lost_on_route :
    (bodyMessages exactFloats answeredCall.toVec).map (fun messages =>
        (answersFollow [] messages, messages.flatMap messageCalls,
          messages.filterMap messageAnswer)) =
      some (true, [⟨"c1", "add", "[2,2]"⟩], [("c1", "4")]) ∧
    ∃ sent, ClientProtocol.chat.route plainParsers
        (plainAdapter .openAiChat) "r" answeredCall.toVec = .ok sent ∧
      (bodyMessages exactFloats sent).map (fun messages =>
          (answersFollow [] messages, messages.flatMap messageCalls,
            messages.filterMap messageAnswer)) =
        some (false, [], [("c1", "\"4\"")]) := by
  refine ⟨?_, _, answeredCall_route, ?_⟩
  · rw [bodyMessages, show fromSlice exactFloats _ = _ from answeredCall_read]
    decide +kernel
  · rw [bodyMessages, Json.fromSlice_exact (by decide +kernel)]
    decide +kernel

end Wokcore.Protocols
