import Wokcore.Protocols.Outbound.Order

/-!
# The items of a Responses stream

What a successful call of the Responses codec does in terms of output items. A delta is appended to
the item it names, or opens one (`Appends`), and is sent with the announcement of its item if that
is new.
-/

set_option autoImplicit false

namespace Wokcore.Protocols.Outbound

open Lib Outcome Result List

variable {output output' : List ResponsesOutput} {item old : ResponsesOutput}

theorem exists_itemOf {e : CanonicalEvent} (h : e.isDelta = true) : ∃ item,
    itemOf e = some item := by
  cases e with
  | outputTextDelta | reasoningDelta | toolCallDelta => exact ⟨_, rfl⟩
  | _ => cases h

/-- What appending an item does to the output: where it is put, and whether it is new there. -/
inductive Appends (output : List ResponsesOutput) (item : ResponsesOutput) :
    List ResponsesOutput → Nat → Bool → Prop where
  | known {i : Nat} {old extended : ResponsesOutput} (hold : output[i]? = some old)
      (hid : old.itemId = item.itemId) (hfirst : ∀ o ∈ output.take i, o.itemId ≠ item.itemId)
      (hextend : old.extend item = some extended) :
      Appends output item (output.set i extended) i false
  | new (hfresh : ∀ o ∈ output, o.itemId ≠ item.itemId)
    (hcall : ∀ o ∈ output, o.sameCall item = false) :
      Appends output item (output ++ [item]) output.length true

/-! ## The output -/

/-- The item with more text. -/
def grow (more : String) : ResponsesOutput → ResponsesOutput
  | .text itemId content => .text itemId (content ++ more)
  | .reasoning itemId summary => .reasoning itemId (summary ++ more)
  | .tool itemId callId name arguments => .tool itemId callId name (arguments ++ more)

/-- A delta put to the item it belongs to, or behind all items if there is none yet. -/
def gather (output : List ResponsesOutput) (item : ResponsesOutput) : List ResponsesOutput :=
  match output with
  | [] => [item]
  | o :: output =>
    if o.itemId = item.itemId then grow item.payload o :: output else o :: gather output item

theorem grow_of_extend {extended : ResponsesOutput} (h : old.extend item = some extended) :
    extended = grow item.payload old := by
  cases old with
  | text itemId content =>
    cases item with
    | text newId delta => exact (Option.some.inj h).symm
    | _ => cases h
  | reasoning itemId summary =>
    cases item with
    | reasoning newId delta => exact (Option.some.inj h).symm
    | _ => cases h
  | tool itemId callId name arguments =>
    cases item with
    | tool newId newCall newName delta =>
      simp only [ResponsesOutput.extend, Option.ite_none_right_eq_some, Option.some.injEq] at h
      exact h.2.symm
    | _ => cases h

theorem gather_of_fresh (h : ∀ o ∈ output, o.itemId ≠ item.itemId) :
    gather output item = output ++ [item] := by
  induction output with
  | nil => rfl
  | cons o output ih =>
    rw [gather, if_neg (h o (by simp)), ih fun o' ho' => h o' (by simp [ho']), cons_append]

theorem gather_of_known {i : Nat} (hold : output[i]? = some old) (hid : old.itemId = item.itemId)
    (hfirst : ∀ o ∈ output.take i, o.itemId ≠ item.itemId) :
    gather output item = output.set i (grow item.payload old) := by
  induction output generalizing i with
  | nil => cases hold
  | cons o output ih =>
    cases i with
    | zero =>
      cases hold
      rw [gather, if_pos hid, set_cons_zero]
    | succ i =>
      rw [take_succ_cons, forall_mem_cons] at hfirst
      rw [gather, if_neg hfirst.1, ih hold hfirst.2, set_cons_succ]

theorem Appends.eq_gather {i : Nat} {isNew : Bool} (h : Appends output item output' i isNew) :
    output' = gather output item := by
  cases h with
  | known hold hid hfirst hextend => rw [gather_of_known hold hid hfirst, grow_of_extend hextend]
  | new hfresh hcall => rw [gather_of_fresh hfresh]

theorem Appends.mem_of_tool {i : Nat} {isNew : Bool} (h : Appends output item output' i isNew)
    {itemId callId name delta : String} (hitem : item = .tool itemId callId name delta) :
    ∃ arguments, .tool itemId callId name arguments ∈ output' := by
  subst hitem
  cases h with
  | new => exact ⟨delta, by simp⟩
  | @known i old extended hold hid hfirst hextend =>
    obtain ⟨hlt, -⟩ := List.getElem?_eq_some_iff.mp hold
    cases old with
    | tool oldId oldCall oldName oldArguments =>
      simp only [ResponsesOutput.extend, Option.ite_none_right_eq_some,
        Option.some.injEq] at hextend
      obtain ⟨⟨rfl, rfl⟩, rfl⟩ := hextend
      cases hid
      exact ⟨_, List.mem_set hlt _⟩
    | _ => cases hextend

namespace ResponsesCodec

variable {c d : ResponsesCodec} {out : List WireEvent} {item : ResponsesOutput} {i : Nat}
    {isNew : Bool}

theorem appends_of_append (h : c.append item = .ok (d, i, isNew)) :
    Appends c.output item d.output i isNew := by
  unfold append at h
  cases hfind : c.findOutput item.itemId with
  | some outputIndex =>
    rw [hfind] at h
    simp only [do_ok, checks_ok, Prod.mk.injEq, Option.bind_eq_some_iff] at h
    obtain ⟨extended, ⟨old, hold, hextend⟩, aggregateBytes, -, rfl, rfl, rfl⟩ := h
    obtain ⟨hlt, hid, hfirst⟩ := findIdx?_eq_some_iff_getElem.mp hfind
    rw [getElem?_eq_getElem hlt, Option.some.injEq] at hold
    rw [← hold] at hextend
    refine .known (getElem?_eq_getElem hlt) (by simpa using hid) (fun o ho => ?_) hextend
    obtain ⟨j, hj, rfl⟩ := mem_take_iff_getElem.mp ho
    simpa using hfirst j (by omega)
  | none =>
    rw [hfind] at h
    simp only [do_ok, checks_ok, Prod.mk.injEq, Bool.not_eq_true', Bool.or_eq_false_iff] at h
    obtain ⟨⟨-, hcall⟩, aggregateBytes, -, rfl, rfl, rfl⟩ := h
    refine .new (fun o ho => ?_) (fun o ho => ?_)
    · simpa using findIdx?_eq_none_iff.mp hfind o ho
    · simpa using any_eq_false.mp hcall o ho

theorem length_append_le (h : c.append item = .ok (d, i, isNew)) :
    d.output.length ≤ max c.output.length c.limits.maxOutputItems := by
  unfold append at h
  split at h
  · simp only [do_ok, Prod.mk.injEq] at h
    obtain ⟨extended, -, aggregateBytes, -, rfl, -, -⟩ := h
    show (c.output.set _ _).length ≤ _
    rw [length_set]
    exact Nat.le_max_left _ _
  · simp only [do_ok, checks_ok, Prod.mk.injEq, Bool.not_eq_true', Bool.or_eq_false_iff,
      decide_eq_false_iff_not] at h
    obtain ⟨⟨hroom, -⟩, aggregateBytes, -, rfl, -, -⟩ := h
    show (c.output ++ [item]).length ≤ _
    rw [length_append, length_singleton]
    omega

/-- The item is appended, and sent with its announcement if it is new. -/
def SendsItem (c : ResponsesCodec) (item : ResponsesOutput) (out : List WireEvent)
    (d : ResponsesCodec) : Prop :=
  ∃ i isNew output aggregateBytes, Appends c.output item output i isNew ∧
    output.length ≤ max c.output.length c.limits.maxOutputItems ∧
    d = { c with output, aggregateBytes,
                 sequenceNumber := c.sequenceNumber + (deltaEvents item i isNew).length } ∧
    out = wireFrom c.sequenceNumber (deltaEvents item i isNew)

theorem handle_delta {e : CanonicalEvent} (hitem : itemOf e = some item)
    (h : handle e c = .ok out d) :
    SendsItem c item out d := by
  obtain ⟨-, -, e, i, isNew, happend, hwires⟩ := delta_of_handle hitem h
  obtain ⟨hout, rfl⟩ := wires_eq_ok.mp hwires
  have happends := appends_of_append happend
  have hlength := length_append_le happend
  obtain ⟨output, aggregateBytes, rfl⟩ := append_keeps happend
  exact ⟨i, isNew, output, aggregateBytes, happends, hlength, rfl, hout.symm⟩

end ResponsesCodec

/-! ## Events as they are sent -/

variable (number : Nat)

theorem wireFrom_append (as bs : List Unnumbered) :
    wireFrom number (as ++ bs) = wireFrom number as ++ wireFrom (number + as.length) bs := by
  induction as generalizing number with
  | nil => rfl
  | cons a as ih =>
    rw [cons_append, wireFrom, wireFrom, ih, length_cons, cons_append,
      Nat.add_right_comm, Nat.add_assoc number]

/-- The members of an event as it is sent. -/
def wireFields (ev : Unnumbered) : Members :=
  [("type", .str ev.1)] ++ ev.2 ++ [("sequence_number", .ofNat number)]

theorem length_wireFrom (evs : List Unnumbered) : (wireFrom number evs).length = evs.length := by
  induction evs generalizing number with
  | nil => rfl
  | cons ev evs ih => rw [wireFrom, length_cons, ih, length_cons]

theorem wireFrom_concat (evs : List Unnumbered) (ev : Unnumbered) :
    wireFrom number (evs ++ [ev]) = wireFrom number evs ++
    [wireEvent (number + evs.length) ev] := by
  rw [wireFrom_append]
  rfl

theorem get?_wireEvent {ev : Unnumbered} {number : Nat}
    (hnd : ((wireFields number ev).map Prod.fst).Nodup) (key : String) :
    (wireEvent number ev).2.tree.get? key = ((wireFields number ev).lookup key).map Json.norm :=
  get?_norm_obj key hnd

theorem get?_response (name : String) (response : Json) :
    (wireEvent number (name, [("response", response)])).2.tree.get? "response" =
      some response.norm := by
  exact get?_wireEvent (by simp [wireFields]) "response"

theorem responseValue_members (c : ResponsesCodec) (status : String) (output : List Json)
    (usage : Json) :
    ∃ fields, c.responseValue status output usage = .obj fields ∧ (fields.map Prod.fst).Nodup ∧
      fields.lookup "id" = some (.str (c.responseId.getD "")) ∧ fields.lookup "output" =
      some (.arr output) ∧ fields.lookup "usage" = some usage ∧
      fields.lookup "error" = some (optionJson Value.tree c.context.response.error) :=
  ⟨_, rfl, by simp, rfl, rfl, rfl, rfl⟩

/-- A context in which nothing is set. -/
def bareContext : ResponsesEncodeContext where
  model := "m"
  createdAt := 0
  response := {
    completedAt := none, error := none, incompleteDetails := none, instructions := none,
      maxOutputTokens := none
    metadata := .empty, parallelToolCalls := false, previousResponseId := none, reasoning :=
      .ofBool false
    store := false, temperature := none, text := .ofBool false, toolChoice := .ofBool false,
      tools := []
    topP := none, truncation := .ofBool false, user := none }

end Wokcore.Protocols.Outbound
