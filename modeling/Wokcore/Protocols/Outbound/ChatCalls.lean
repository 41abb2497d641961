import Wokcore.Protocols.Outbound.Order

/-!
# The calls of a Chat stream

What a successful call of the Chat codec does in terms of tool calls: a call is known under its
number or gets the next one (`Registers`). And what a run sends: the frames of its chunks and the
marker of the end.
-/

set_option autoImplicit false

namespace Wokcore.Protocols.Outbound

open Lib Outcome Result Protocols.Stream

open ChatCodec

theorem chunkFields_nodup (c : ChatCodec) (choices : List Json) (usage : Json) :
    ((c.chunkFields choices usage).map Prod.fst).Nodup := by
  unfold chunkFields filteredExtra
  apply nodup_append_entries
  · split <;> simp
  · intro e he hmem
    have hfree : e.1 ∉ reservedKeys := by simpa using he
    refine hfree ?_
    split at hmem
    · simpa [reservedKeys, or_assoc] using hmem
    · have hkeys : e.1 = "id" ∨ e.1 = "object" ∨ e.1 = "created" ∨ e.1 = "model" ∨
          e.1 = "choices" := by
        simpa using hmem
      simp [reservedKeys]
      tauto

section Calls

variable {outputs outputs' : OutputRegistry} {itemId callId name : String} {limits : ChatLimits}
    {isNew : Bool}

theorem tools_registerText (h : outputs.registerText itemId limits = .ok outputs') :
    outputs'.tools = outputs.tools := by
  obtain ⟨-, -, hregister⟩ := do_eq_ok.mp h
  split at hregister
  · cases hregister
    rfl
  · cases hregister
  · obtain ⟨-, -, hinsert⟩ := do_eq_ok.mp hregister
    cases hinsert
    rfl

/-- What registering a call does: it is known under the number it is given, or it gets the next
    one. -/
inductive Registers (tools : List ChatToolIdentity) (tool : ChatToolIdentity) :
    List ChatToolIdentity → Nat → Bool → Prop where
  | known {i : Nat} (h : tools[i]? = some tool) : Registers tools tool tools i false
  | new : Registers tools tool (tools ++ [tool]) tools.length true

theorem Registers.grows {tools tools' : List ChatToolIdentity} {tool : ChatToolIdentity} {i : Nat}
    (h : Registers tools tool tools' i isNew) : tools <+: tools' := by
  cases h with
  | known h => exact List.prefix_rfl
  | new => exact List.prefix_append _ _

theorem registers_of_registerTool {i : Nat}
    (h : outputs.registerTool itemId callId name limits = .ok (outputs', i, isNew)) :
    Registers outputs.tools ⟨callId, name⟩ outputs'.tools i isNew ∧
      (isNew = true → outputs.tools.length < limits.maxOutputItems) := by
  simp only [OutputRegistry.registerTool, do_ok, checks_ok] at h
  obtain ⟨-, -, -, -, h⟩ := h
  split at h
  · cases h
  · split at h
    · next index hidentity hknown =>
      cases h
      exact ⟨.known hknown, fun hnew => by cases hnew⟩
    · cases h
  · simp only [do_ok, checks_ok, Prod.mk.injEq, Bool.not_eq_true', Bool.or_eq_false_iff,
      decide_eq_false_iff_not, Nat.not_le, ge_iff_le] at h
    obtain ⟨⟨⟨-, hroom⟩, -⟩, rfl, rfl, rfl⟩ := h
    exact ⟨.new, fun _ => hroom⟩

end Calls

variable {c d : ChatCodec} {es : Events}

/-- **What a run sends**: the frames of its values and, if it has ended, the marker of the end. -/
theorem runAll_encodeChunk {bytes : Bytes} (hopen : c.terminal = false)
    (h : Call.runAll encodeChunk c es = .ok (d, bytes)) : ∃ values, Call.runAll transition c es =
      .ok (d, values) ∧ bytes = (values.flatMap fun v => encodeSse none v) ++ if d.terminal
      then doneMarker else [] := by
  induction es generalizing c bytes with
  | nil =>
    cases h
    exact ⟨[], rfl, by rw [hopen]; rfl⟩
  | cons e es ih =>
    obtain ⟨u, o, p, hstep, hrest, rfl⟩ := feed_cons_eq_ok.mp h
    obtain ⟨chunks, htransition, hbytes⟩ := encodeChunk_eq_ok.mp (Call.outcome_eq_ok.mp hstep)
    have hfirst : Call.stepOfCall transition c e = .ok (u, chunks) :=
      Call.outcome_eq_ok.mpr htransition
    cases hu : u.terminal with
    | false =>
      obtain ⟨values, hvalues, rfl⟩ := ih hu hrest
      rw [hu, if_neg (by simp)] at hbytes
      refine ⟨chunks ++ values, feed_cons_eq_ok.mpr ⟨u, chunks, values, hfirst, hvalues, rfl⟩, ?_⟩
      rw [← hbytes, List.flatMap_append, List.append_assoc]
    | true =>
      -- nothing is sent after the end
      cases es with
      | nil =>
        cases hrest
        rw [hu, if_pos rfl] at hbytes
        exact ⟨chunks, by rw [Call.runAll, feed_singleton]; exact hfirst, by
          rw [hu, if_pos rfl, List.append_nil, hbytes]⟩
      | cons e' es =>
        obtain ⟨u', o', p', hstep', -, -⟩ := feed_cons_eq_ok.mp hrest
        obtain ⟨chunks', htransition', -⟩ := encodeChunk_eq_ok.mp (Call.outcome_eq_ok.mp hstep')
        have hnot := (transition_eq_ok.mp htransition').1
        rw [hu] at hnot
        cases hnot

theorem exists_runAll_encodeChunk {values : List Value}
    (h : Call.runAll transition c es = .ok (d, values)) :
    ∃ bytes, Call.runAll encodeChunk c es = .ok (d, bytes) := by
  induction es generalizing c values with
  | nil =>
    cases h
    exact ⟨[], rfl⟩
  | cons e es ih =>
    obtain ⟨u, o, p, hstep, hrest, rfl⟩ := feed_cons_eq_ok.mp h
    obtain ⟨bytes, hbytes⟩ := ih hrest
    have hfirst := encodeChunk_eq_ok.mpr ⟨o, Call.outcome_eq_ok.mp hstep, rfl⟩
    exact ⟨_, feed_cons_eq_ok.mpr ⟨u, _, bytes, Call.outcome_eq_ok.mpr hfirst, hbytes, rfl⟩⟩

/-- A context that asks for usage, or does not. -/
def chatContext (includeUsage : Bool) : ChatEncodeContext where
  model := "m"
  created := 0
  response :=
    { choiceIndex := 0, finishReason := .stop, logprobs := none, includeUsage, extra := .empty }

end Wokcore.Protocols.Outbound
