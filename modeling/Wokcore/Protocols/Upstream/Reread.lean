import Wokcore.Lib.Json.Reread
import Wokcore.Protocols.Nesting

/-!
# Reading a built body

The gateway writes a body and a decoder reads it: the floats in it are read from their texts again.
The only floats are in the tool schemas and the outputs of tools, so the body is read as the
document of the request with these read again. The Chat encoder sends an output as a text, and
leaves nothing to read there.
-/

set_option autoImplicit false

namespace Wokcore.Protocols

open Lib Upstream Json ClientProtocol ReasoningOptions

variable (F : FloatReader)

def InputItem.reread : InputItem → Option InputItem
  | .toolResult callId output => (output.reread F).map (.toolResult callId)
  | item => some item

variable (tool : ToolDefinition)

def ToolDefinition.reread : Option ToolDefinition :=
  (tool.inputSchema.reread F).map fun inputSchema => { tool with inputSchema }

variable (request : CanonicalRequest)

namespace ClientProtocol

/-- What is read again of the input of a request that is sent in the protocol. -/
def rereadInput (input : List InputItem) : ClientProtocol → Option (List InputItem)
  | .chat => some input
  | _ => input.mapM (InputItem.reread F)

/-- The request with everything read again that its body holds. -/
def rereadRequest (p : ClientProtocol) : Option CanonicalRequest :=
  (p.rereadInput F request.input).bind fun input =>
    (request.tools.mapM (ToolDefinition.reread F)).map fun tools => { request with input, tools }

end ClientProtocol

/-! ## Documents -/

theorem rereadItems_map {α : Type*} {f : α → Json} {g : α → Option α}
    (h : ∀ a, (f a).reread F = (g a).map f) (as : List α) :
    rereadItems F (as.map f) = (as.mapM g).map (List.map f) := by
  induction as with
  | nil => rfl
  | cons a as ih =>
    rw [List.map_cons, rereadItems, ih, h, List.mapM_cons]
    cases g a <;> cases as.mapM g <;> rfl

theorem rereadMembers_append (fs gs : Members) :
    rereadMembers F (fs ++ gs) =
      (rereadMembers F fs).bind fun fs' => (rereadMembers F gs).map (fs' ++ ·) := by
  induction fs with
  | nil => cases h : rereadMembers F gs <;> simp [rereadMembers, h]
  | cons f fs ih =>
    obtain ⟨k, x⟩ := f
    rw [List.cons_append, rereadMembers, ih, rereadMembers]
    cases reread F x <;> cases rereadMembers F fs <;> cases rereadMembers F gs <;> rfl

theorem reread_orNull (s : Option String) : (orNull s).reread F = some (orNull s) := by
  cases s <;> rfl

theorem rereadMembers_toolsMember {f : ToolDefinition → Json}
    (h : ∀ tool, (f tool).reread F = (tool.reread F).map f) (tools : List ToolDefinition) :
    rereadMembers F (toolsMember (tools.map f)) =
      (tools.mapM (ToolDefinition.reread F)).map fun tools' => toolsMember (tools'.map f) := by
  cases tools with
  | nil => rfl
  | cons tool tools =>
    have hlist := rereadItems_map F h (tool :: tools)
    have hmember : toolsMember ((tool :: tools).map f) =
      [("tools", .arr ((tool :: tools).map f))] := rfl
    rw [hmember, rereadMembers, reread, hlist, List.mapM_cons]
    cases tool.reread F <;> cases tools.mapM (ToolDefinition.reread F) <;> rfl

theorem rereadMembers_effortMember (member : String → String × Json)
    (h : ∀ effort, (member effort).2.reread F = some (member effort).2) :
    rereadMembers F (effortMember request member) = some (effortMember request member) := by
  unfold effortMember
  cases request.reasoning.bind effort with
  | none => rfl
  | some effort =>
    change rereadMembers F [member effort] = some [member effort]
    rw [rereadMembers, h]
    rfl

theorem rereadMembers_when {fs : Members} (h : rereadMembers F fs = some fs) (b : Bool) :
    rereadMembers F (if b then fs else []) = some (if b then fs else []) := by
  cases b with
  | true => exact h
  | false => rfl

theorem reread_chatMessage (item : InputItem) :
    (chatMessage item).reread F = some (chatMessage item) := by
  cases item <;> rfl

theorem reread_chatTool : (chatTool tool).reread F = (tool.reread F).map chatTool := by
  simp only [chatTool, reread, rereadMembers, reread_orNull, Value.tree_reread,
    ToolDefinition.reread]
  cases tool.inputSchema.reread F <;> rfl

theorem reread_responsesItem (item : InputItem) :
    (responsesItem item).reread F = (item.reread F).map responsesItem := by
  cases item with
  | text | imageUrl => rfl
  | toolResult callId output =>
    simp only [responsesItem, reread, rereadMembers, Value.tree_reread, InputItem.reread]
    cases output.reread F <;> rfl

theorem reread_responsesTool :
    (responsesTool tool).reread F = (tool.reread F).map responsesTool := by
  simp only [responsesTool, reread, rereadMembers, reread_orNull, Value.tree_reread,
    ToolDefinition.reread]
  cases tool.inputSchema.reread F <;> rfl

theorem reread_anthropicBlock (item : InputItem) :
    (anthropicBlock item).reread F = (item.reread F).map anthropicBlock := by
  cases item with
  | text | imageUrl => rfl
  | toolResult callId output =>
    simp only [anthropicBlock, reread, rereadMembers, Value.tree_reread, InputItem.reread]
    cases output.reread F <;> rfl

theorem reread_anthropicTool :
    (anthropicTool tool).reread F = (tool.reread F).map anthropicTool := by
  simp only [anthropicTool, reread, rereadMembers, reread_orNull, Value.tree_reread,
    ToolDefinition.reread]
  cases tool.inputSchema.reread F <;> rfl

theorem reread_document (p : ClientProtocol) (request : CanonicalRequest) :
    (p.document request).reread F = (p.rereadRequest F request).map p.document := by
  cases p with
  | chat =>
    have hmessages : rereadItems F (request.input.map chatMessage) =
        some (request.input.map chatMessage) := by
      induction request.input with
      | nil => rfl
      | cons item items ih => rw [List.map_cons, rereadItems, reread_chatMessage, ih]; rfl
    have hstream := rereadMembers_when F (rfl : rereadMembers F [("stream_options",
      Json.obj [("include_usage", .bool true)])] = some _) request.stream
    simp only [document, chatDocument, reread, rereadMembers_append, hstream,
      rereadMembers_toolsMember F (reread_chatTool F), rereadMembers_effortMember F request
        (fun effort => ("reasoning_effort", .str effort)) fun _ => rfl,
      rereadMembers, hmessages, rereadRequest, rereadInput]
    cases request.tools.mapM (ToolDefinition.reread F) <;> rfl
  | responses =>
    simp only [document, responsesDocument, reread, rereadMembers_append,
      rereadMembers_toolsMember F (reread_responsesTool F), rereadMembers_effortMember F request
        (fun effort => ("reasoning", .obj [("effort", .str effort)])) fun _ => rfl,
      rereadMembers, rereadItems_map F (reread_responsesItem F), rereadRequest,
      rereadInput]
    cases request.input.mapM (InputItem.reread F) <;>
      cases request.tools.mapM (ToolDefinition.reread F) <;> rfl
  | anthropic =>
    have hthinking := fun budget : Nat => rereadMembers_when F (rfl : rereadMembers F [("thinking",
      Json.obj [("type", .str "enabled"), ("budget_tokens", .ofNat budget)])] = some _)
      request.reasoning.isSome
    simp only [document, anthropicDocument, if_true, reread, rereadMembers_append, hthinking,
      rereadMembers_toolsMember F (reread_anthropicTool F), rereadMembers, rereadItems,
      rereadItems_map F (reread_anthropicBlock F), rereadRequest,
      rereadInput]
    cases request.input.mapM (InputItem.reread F) <;>
      cases request.tools.mapM (ToolDefinition.reread F) <;> rfl

/-! ## No key twice -/

theorem distinctItems_map {α : Type*} {f : α → Json} (h : ∀ a, (f a).Distinct) (as : List α) :
    DistinctItems (as.map f) := by
  rw [distinctItems_iff, List.forall_mem_map]
  exact fun a _ => h a

theorem distinct_orNull (s : Option String) : (orNull s).Distinct := by cases s <;> trivial

theorem distinct_chatDocument : (chatDocument request).Distinct := by
  have hmessages : DistinctItems (request.input.map chatMessage) := by
    refine distinctItems_map (fun item => ?_) _
    cases item <;> simp [chatMessage, Distinct, DistinctMembers, DistinctItems]
  have htools : DistinctItems (request.tools.map chatTool) := by
    refine distinctItems_map (fun tool => ?_) _
    simp [chatTool, Distinct, DistinctMembers, distinct_orNull, distinct_tree]
  by_cases ht : request.tools = [] <;> cases hs : request.stream <;>
    cases he : request.reasoning.bind effort <;>
    simp [chatDocument, toolsMember_of_ne_nil, effortMember, hs, he, ht, Distinct, DistinctMembers,
      hmessages, htools]

theorem distinct_responsesDocument : (responsesDocument request).Distinct := by
  have hinput : DistinctItems (request.input.map responsesItem) := by
    refine distinctItems_map (fun item => ?_) _
    cases item <;> simp [responsesItem, Distinct, DistinctMembers, DistinctItems, distinct_tree]
  have htools : DistinctItems (request.tools.map responsesTool) := by
    refine distinctItems_map (fun tool => ?_) _
    simp [responsesTool, Distinct, DistinctMembers, distinct_orNull, distinct_tree]
  by_cases ht : request.tools = [] <;>
    cases he : request.reasoning.bind effort <;>
    simp [responsesDocument, toolsMember_of_ne_nil, effortMember, he, ht, Distinct, DistinctMembers,
      hinput, htools]

theorem distinct_anthropicDocument : (anthropicDocument request .text).Distinct := by
  have hblocks : DistinctItems (request.input.map anthropicBlock) := by
    refine distinctItems_map (fun item => ?_) _
    cases item <;> simp [anthropicBlock, Distinct, DistinctMembers, distinct_tree]
  have htools : DistinctItems (request.tools.map anthropicTool) := by
    refine distinctItems_map (fun tool => ?_) _
    simp [anthropicTool, Distinct, DistinctMembers, distinct_orNull, distinct_tree]
  by_cases ht : request.tools = [] <;> cases hr : request.reasoning.isSome <;>
    simp [anthropicDocument, toolsMember_of_ne_nil, hr, ht, Distinct, DistinctMembers,
      DistinctItems, hblocks, htools, Json.ofNat]

/-- **What a built body is read as.** -/
theorem fromSlice_document (p : ClientProtocol) (request : CanonicalRequest) :
    fromSlice F (p.document request).norm.toVec =
      if (p.document request).norm.depth ≤ maxNesting then
        (p.rereadRequest F request).map fun request' => (p.document request').norm
      else none := by
  have hdistinct : (p.document request).Distinct := by
    cases p with
    | chat => exact distinct_chatDocument request
    | responses => exact distinct_responsesDocument request
    | anthropic => exact distinct_anthropicDocument request
  rw [fromSlice_toVec, reread_norm F _ hdistinct, reread_document, Option.map_map]
  rfl

end Wokcore.Protocols
