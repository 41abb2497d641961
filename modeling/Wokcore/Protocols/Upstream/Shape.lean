import Wokcore.Protocols.Upstream.Cuts

/-!
# The shape of a decoded response

A client codec wants a response in one shape: `Created`, then deltas, then `Usage`, then
`Completed`. Which streams a decoder turns into that shape is read off the frames it gets.

* The Responses and Anthropic decoders write `Usage` and `Completed` when they see the terminal
  frame, but look at their `completed` flag only when a push starts. A frame that follows the
  terminal one in the same push still gives its events.
* The Azure and Gemini decoders write `Usage` at the end, and only if the provider has sent a usage.
-/

set_option autoImplicit false

namespace Wokcore.Protocols

open Lib CanonicalEvent List

variable {events out as bs : Events} {e : CanonicalEvent} {created' : Bool}

/-! ## The shape -/

/-- A text, reasoning or tool delta. -/
def CanonicalEvent.isDelta : CanonicalEvent → Bool
  | .outputTextDelta .. => true
  | .reasoningDelta .. => true
  | .toolCallDelta .. => true
  | _ => false

/-- The end every response should have. -/
def isEnding : Events → Bool
  | [.usage _, .completed] => true
  | _ => false

/-- `Created`, deltas, `Usage`, `Completed`. -/
def shaped : Events → Bool
  | .created _ :: rest => isEnding (rest.dropWhile isDelta)
  | _ => false

def AllDeltas (events : Events) : Prop := ∀ e ∈ events, e.isDelta = true

theorem AllDeltas.nil : AllDeltas [] := fun _ h => absurd h (by simp)

theorem AllDeltas.append (ha : AllDeltas as) (hb : AllDeltas bs) :
    AllDeltas (as ++ bs) := fun e he => (mem_append.mp he).elim (ha e) (hb e)

theorem AllDeltas.singleton (h : e.isDelta = true) : AllDeltas [e] := by
  intro e' he
  rwa [mem_singleton.mp he]

/-- What a step of a decoder adds to the events. -/
def AddsDeltas (events events' : Events) : Prop := ∃ deltas, AllDeltas deltas ∧
    events' = events ++ deltas

theorem AddsDeltas.refl (events : Events) : AddsDeltas events events :=
  ⟨[], .nil, (append_nil _).symm⟩

theorem AddsDeltas.trans {cs : Events} (h₁ : AddsDeltas as bs) (h₂ : AddsDeltas bs cs) :
    AddsDeltas as cs := by
  obtain ⟨ds, hds, rfl⟩ := h₁
  obtain ⟨es, hes, rfl⟩ := h₂
  exact ⟨ds ++ es, hds.append hes, append_assoc _ _ _⟩

theorem AddsDeltas.singleton (h : e.isDelta = true) : AddsDeltas events (events ++ [e]) :=
  ⟨[e], .singleton h, rfl⟩

theorem dropWhile_deltas {deltas : Events} (h : AllDeltas deltas) (rest : Events) :
    (deltas ++ rest).dropWhile isDelta = rest.dropWhile isDelta := by
  rw [dropWhile_append, dropWhile_eq_nil_iff.mpr h]
  rfl

theorem shaped_of {deltas : Events} (h : AllDeltas deltas) (id : String) (rest : Events) :
    shaped (.created id :: (deltas ++ rest)) = isEnding (rest.dropWhile isDelta) := by
  rw [shaped, dropWhile_deltas h]

theorem shaped_iff :
    shaped events = true ↔ ∃ id deltas usage, AllDeltas deltas ∧
      events = whole id deltas usage := by
  constructor
  · intro h
    cases events with
    | nil => cases h
    | cons e rest =>
      cases e with
      | created id =>
        rw [shaped] at h
        unfold isEnding at h
        split at h
        · next usage hrest =>
          refine ⟨id, rest.takeWhile isDelta, usage,
            fun e he => mem_takeWhile_imp he, ?_⟩
          rw [whole, ← hrest, takeWhile_append_dropWhile]
        · cases h
      | _ => cases h
  · rintro ⟨id, deltas, usage, hdeltas, rfl⟩
    rw [shaped_of hdeltas]
    rfl

/-- Nothing can follow a response that has its shape. -/
theorem shaped_append {more : Events} (h : shaped events = true) :
    shaped (events ++ more) = true ↔ more = [] := by
  obtain ⟨id, deltas, usage, hdeltas, rfl⟩ := shaped_iff.mp h
  rw [cons_append, append_assoc, shaped_of hdeltas]
  cases more with
  | nil => exact ⟨fun _ => rfl, fun _ => rfl⟩
  | cons e more => exact ⟨fun hmore => (by cases hmore), fun hmore => (by cases hmore)⟩

/-! ## On the way to it -/

/-- The events of a response so far, by what its decoder remembers. -/
inductive Progress : (created completed : Bool) → Events → Prop where
  | idle : Progress false false []
  | open (id : String) {deltas : Events} (h : AllDeltas deltas) :
      Progress true false (.created id :: deltas)
  | done {events : Events} (h : shaped events = true) : Progress true true events

theorem Progress.deltas {deltas : Events} (h : Progress true false events)
    (hdeltas : AllDeltas deltas) : Progress true false (events ++ deltas) := by
  cases h with
  | «open» id hopen => exact .open id (hopen.append hdeltas)

theorem Progress.completes (h : Progress true false events) (usage : Usage) :
    shaped (events ++ [.usage usage, .completed]) = true := by
  cases h with
  | «open» id hopen => exact shaped_iff.mpr ⟨id, _, usage, hopen, rfl⟩

/-- What one frame of a decoder that ends with a terminal frame can do. -/
inductive FrameEffect (completed : Bool) : (created created' completed' : Bool) → Events →
    Prop where
  | quiet (created : Bool) : FrameEffect completed created created completed []
  | creates (id : String) : FrameEffect completed false true completed [.created id]
  | delta {e : CanonicalEvent} (h : e.isDelta = true) : FrameEffect completed true true completed
    [e]
  | completes (usage : Usage) : FrameEffect completed true true true [.usage usage, .completed]

/-- Until the terminal frame a decoder makes progress. -/
theorem Progress.step {created : Bool} (h : Progress created false events)
    (he : FrameEffect false created created' false out) :
    Progress created' false (events ++ out) := by
  cases he with
  | quiet => rwa [append_nil]
  | creates id =>
    cases h with
    | idle => exact .open id .nil
  | delta hdelta => exact h.deltas (.singleton hdelta)

/-- The terminal frame gives the response its shape. -/
theorem Progress.last {created : Bool} (h : Progress created false events)
    (he : FrameEffect false created created' true out) : shaped (events ++ out) = true := by
  cases he with
  | completes usage => exact h.completes usage

/-! ## Decoders that end with a terminal frame -/

/-- No frame that carries an event follows the first terminal frame. -/
def quietAfter {α : Type} (loud last : α → Bool) : List α → Bool
  | [] => true
  | f :: fs => if last f then fs.all fun g => !loud g else quietAfter loud last fs

/-- A decoder that writes the end of a response at its terminal frame. -/
structure Terminating {σ α : Type} (step : σ → α → Result (σ × Events))
    (created completed : σ → Bool) (loud last : α → Bool) : Prop where
  effect : ∀ {s f t out}, step s f = .ok (t, out) →
    FrameEffect (completed s) (created s) (created t) (completed t) out
  loud : ∀ {s f t out}, step s f = .ok (t, out) → loud f = !out.isEmpty
  last : ∀ {s f t out}, step s f = .ok (t, out) → completed t = (completed s || last f)

namespace Terminating

variable {σ α : Type} {step : σ → α → Result (σ × Events)} {created completed : σ → Bool}
  {loud last : α → Bool} {frames : List α}

theorem quiet_iff (hstep : Terminating step created completed loud last) {s t : σ}
    (h : feed step s frames = .ok (t, out)) : out = [] ↔ frames.all (fun f => !loud f) = true := by
  induction frames generalizing s out with
  | nil =>
    cases h
    exact ⟨fun _ => rfl, fun _ => rfl⟩
  | cons f fs ih =>
    obtain ⟨u, o, p, hf, hfs, rfl⟩ := feed_cons_eq_ok.mp h
    rw [append_eq_nil_iff, ih hfs, all_cons, hstep.loud hf, Bool.not_not, Bool.and_eq_true,
      List.isEmpty_iff]

/-- **The shape of a stream with a terminal frame.** -/
theorem shaped_iff_quietAfter (hstep : Terminating step created completed loud last) {s t : σ}
    (events : Events) (hs : completed s = false) (hevents : Progress (created s) false events)
    (h : feed step s frames = .ok (t, out)) (ht : completed t = true) :
    shaped (events ++ out) = true ↔ quietAfter loud last frames = true := by
  induction frames generalizing s events out with
  | nil =>
    cases h
    rw [hs] at ht
    cases ht
  | cons f fs ih =>
    obtain ⟨u, o, p, hf, hfs, rfl⟩ := feed_cons_eq_ok.mp h
    have heffect := hstep.effect hf
    have hlast := hstep.last hf
    rw [hs, Bool.false_or] at hlast
    rw [hs, hlast] at heffect
    rw [← append_assoc, quietAfter]
    cases hf' : last f with
    | true =>
      rw [hf'] at heffect
      rw [if_pos rfl, shaped_append (hevents.last heffect)]
      exact hstep.quiet_iff hfs
    | false =>
      rw [hf'] at heffect hlast
      exact ih _ hlast (hevents.step heffect) hfs

end Terminating

/-! ## Decoders that end when they are told to -/

/-- What one document of a response can do. -/
inductive DocumentEffect : (created created' : Bool) → Events → Prop where
  | creates (id : String) {deltas : Events} (h : AllDeltas deltas) :
      DocumentEffect false true (.created id :: deltas)
  | adds (created : Bool) {deltas : Events} (h : AllDeltas deltas)
      (hcreated : created = false → deltas = []) : DocumentEffect created created deltas

theorem DocumentEffect.more {created : Bool} {deltas : Events}
    (h : DocumentEffect created true out) (hdeltas : AllDeltas deltas) :
    DocumentEffect created true (out ++ deltas) := by
  cases h with
  | creates id hout => exact .creates id (hout.append hdeltas)
  | adds _ hout => exact .adds true (hout.append hdeltas) nofun

theorem Progress.document {created : Bool} (h : Progress created false events)
    (he : DocumentEffect created created' out) : Progress created' false (events ++ out) := by
  cases he with
  | creates id hout =>
    cases h with
    | idle => exact .open id hout
  | adds _ hout hcreated =>
    cases h with
    | idle =>
      rw [hcreated rfl]
      exact .idle
    | «open» id hopen => exact .open id (hopen.append hout)

/-- A decoder that keeps the usage it is told for the end. -/
structure Reporting {σ α : Type} (step : σ → α → Result (σ × Events)) (created completed : σ → Bool)
    (usage : σ → Option Usage) (carries : α → Bool) : Prop where
  effect : ∀ {s f t out}, step s f = .ok (t, out) → DocumentEffect (created s) (created t) out
  completed : ∀ {s f t out}, step s f = .ok (t, out) → completed t = completed s
  usage : ∀ {s f t out}, step s f = .ok (t, out) →
    (usage t).isSome = ((usage s).isSome || carries f)

/-- **The progress of a whole stream.** -/
theorem Reporting.progress {σ α : Type} {step : σ → α → Result (σ × Events)}
    {created completed : σ → Bool} {usage : σ → Option Usage} {carries : α → Bool}
    (hstep : Reporting step created completed usage carries) {s t : σ} {frames : List α}
    (hevents : Progress (created s) false events) (h : feed step s frames = .ok (t, out)) :
    Progress (created t) false (events ++ out) ∧ completed t = completed s ∧
      (usage t).isSome = ((usage s).isSome || frames.any carries) := by
  refine and_assoc.mp ⟨?_, feed_any (fun s => (usage s).isSome) hstep.usage h⟩
  induction frames generalizing s events out with
  | nil =>
    cases h
    rw [append_nil]
    exact ⟨hevents, rfl⟩
  | cons f fs ih =>
    obtain ⟨u, o, p, hf, hfs, rfl⟩ := feed_cons_eq_ok.mp h
    obtain ⟨hprogress, hcompleted⟩ := ih (hevents.document (hstep.effect hf)) hfs
    rw [← append_assoc]
    exact ⟨hprogress, hcompleted.trans (hstep.completed hf)⟩

namespace Upstream

open Protocols.Stream Outcome Result

variable {limits : UpstreamLimits} {r : Events} {itemId text callId name delta : String}
  {reasoning : Bool}

theorem pushEvent_eq_ok {event : CanonicalEvent} :
    pushEvent events event limits = .ok r ↔ events.length < limits.maxEvents ∧
    r = events ++ [event] := by
  unfold pushEvent
  split
  · next h => exact ⟨fun hr => (by cases hr), fun hr => absurd hr.1 (Nat.not_lt.mpr h)⟩
  · next h =>
    rw [Except.ok.injEq]
    exact ⟨fun hr => ⟨Nat.lt_of_not_ge h, hr.symm⟩, fun hr => hr.2.symm⟩

theorem pushText_eq_ok : pushText events itemId text reasoning limits = .ok r ↔
      validateIdentifier itemId limits.maxIdentifierBytes = .ok () ∧
      text.utf8ByteSize ≤ limits.maxTextDeltaBytes ∧ events.length < limits.maxEvents ∧
      r = events ++ [textEvent itemId text reasoning] := by
  unfold pushText
  simp only [do_ok, checks_ok, pushEvent_eq_ok, Bool.not_eq_true', decide_eq_false_iff_not,
    Nat.not_lt]

theorem pushTool_eq_ok : pushTool events itemId callId name delta limits = .ok r ↔
      validateIdentifier itemId limits.maxIdentifierBytes = .ok () ∧
      validateIdentifier callId limits.maxIdentifierBytes = .ok () ∧
      validateIdentifier name limits.maxIdentifierBytes = .ok () ∧
      delta.utf8ByteSize ≤ limits.maxToolArgumentBytes ∧ events.length < limits.maxEvents ∧
      r = events ++ [.toolCallDelta itemId callId name delta] := by
  unfold pushTool
  simp only [do_ok, checks_ok, pushEvent_eq_ok, Bool.not_eq_true', decide_eq_false_iff_not,
    Nat.not_lt]

theorem isDelta_textEvent (itemId text : String) (reasoning : Bool) :
    (textEvent itemId text reasoning).isDelta = true := by
  cases reasoning <;> rfl

/-- What `pushText` adds to an empty list. -/
theorem delta_of_pushText (h : pushText [] itemId text reasoning limits = .ok out) :
    ∃ e, out = [e] ∧ e.isDelta = true :=
  ⟨_, (pushText_eq_ok.mp h).2.2.2, isDelta_textEvent itemId text reasoning⟩

theorem delta_of_pushTool (h : pushTool [] itemId callId name delta limits = .ok out) :
    ∃ e, out = [e] ∧ e.isDelta = true :=
  ⟨_, (pushTool_eq_ok.mp h).2.2.2.2.2, rfl⟩

variable (F : FloatReader)

/-- The `type` of the document in a frame. -/
def frameType (frame : SseFrame) : Option String :=
  (readText F frame.data).toOption.bind fun value => stringAt value "type"

/-- A decoder that goes by the `type` of a frame is terminating if its kinds say what they do. -/
theorem terminating_of_kind {σ : Type} (created completed : σ → Bool) (loud last : String → Bool)
    (decodeKind : σ → Json → String → Result (σ × Events))
    (heffect : ∀ {s value kind t out}, decodeKind s value kind = .ok (t, out) →
      FrameEffect (completed s) (created s) (created t) (completed t) out ∧
        loud kind = (!out.isEmpty) ∧ completed t = (completed s || last kind)) :
    Terminating
      (fun s frame => do
        let value ← readText F frame.data
        let kind ← requiredString value "type"
        decodeKind s value kind)
      created completed (fun frame => (frameType F frame).any loud) fun frame =>
        (frameType F frame).any last := by
  have hread : ∀ {s frame t out}, (do
      let value ← readText F frame.data
      let kind ← requiredString value "type"
      decodeKind s value kind) = .ok (t, out) →
      ∃ value kind, frameType F frame = some kind ∧ decodeKind s value kind = .ok (t, out) := by
    intro s frame t out h
    simp only [do_eq_ok] at h
    obtain ⟨value, hvalue, kind, hkind, h⟩ := h
    refine ⟨value, kind, ?_, h⟩
    rw [frameType, hvalue]
    exact orInvalid_eq_ok.mp hkind
  constructor
  all_goals
    intro s frame t out h
    obtain ⟨value, kind, hkind, h⟩ := hread h
  · exact (heffect h).1
  · rw [hkind]
    exact (heffect h).2.1
  · rw [hkind]
    exact (heffect h).2.2

/-! ### Responses -/

/-- The events of a response are carried by these. -/
def ResponsesKind.loud : ResponsesKind → Bool
  | .created | .textDelta | .reasoningDelta | .argumentsDelta | .completed => true
  | .itemAdded | .failed | .other => false

namespace ResponsesStream

def loud (frame : SseFrame) : Bool :=
  (frameType F frame).any fun kind => (ResponsesKind.ofString kind).loud

def last (frame : SseFrame) : Bool :=
  (frameType F frame).any fun kind => ResponsesKind.ofString kind == .completed

theorem addItem_flags {s t : ResponsesStream} {item : Option Json} (h : s.addItem item = .ok t) :
    t.created = s.created ∧ t.completed = s.completed := by
  unfold addItem at h
  split at h
  · split at h
    · simp only [do_ok] at h
      obtain ⟨itemId, -, callId, -, name, -, rfl⟩ := h
      exact ⟨rfl, rfl⟩
    · cases h
      exact ⟨rfl, rfl⟩
  · cases h
    exact ⟨rfl, rfl⟩

theorem effect_decodeKind {s t : ResponsesStream} {value : Json} {kind : ResponsesKind}
    (h : s.decodeKind limits [] value kind = .ok (t, out)) :
    FrameEffect s.completed s.created t.created t.completed out ∧ kind.loud = (!out.isEmpty) ∧
      t.completed = (s.completed || kind == .completed) := by
  cases kind <;>
    simp only [decodeKind, do_ok, checks_ok, Prod.mk.injEq] at h
  case created =>
    obtain ⟨hcreated, -, rfl, rfl⟩ := h
    rw [Bool.not_eq_true'] at hcreated
    rw [hcreated]
    exact ⟨.creates _, rfl, (Bool.or_false _).symm⟩
  case itemAdded =>
    obtain ⟨t', hadd, rfl, rfl⟩ := h
    obtain ⟨hc, hd⟩ := addItem_flags hadd
    rw [hc, hd]
    exact ⟨.quiet _, rfl, (Bool.or_false _).symm⟩
  case textDelta | reasoningDelta =>
    obtain ⟨hcreated, itemId, -, delta, -, events, hpush, rfl, rfl⟩ := h
    obtain ⟨e, rfl, he⟩ := delta_of_pushText hpush
    rw [hcreated]
    exact ⟨.delta he, rfl, (Bool.or_false _).symm⟩
  case argumentsDelta =>
    obtain ⟨hcreated, itemId, -, call, -, delta, -, events, hpush, rfl, rfl⟩ := h
    obtain ⟨e, rfl, he⟩ := delta_of_pushTool hpush
    rw [hcreated]
    exact ⟨.delta he, rfl, (Bool.or_false _).symm⟩
  case completed =>
    obtain ⟨hcreated, usage, -, rfl, rfl⟩ := h
    rw [hcreated]
    exact ⟨.completes usage, rfl, (Bool.or_true _).symm⟩
  case failed => cases h
  case other =>
    obtain ⟨rfl, rfl⟩ := h
    exact ⟨.quiet _, rfl, (Bool.or_false _).symm⟩

/-- **Responses.** The decoder ends with `response.completed`. -/
theorem terminating (limits : UpstreamLimits) :
    Terminating (stepOf (decodeFrame F limits)) created completed (loud F) (last F) :=
  terminating_of_kind F created completed (fun kind => (ResponsesKind.ofString kind).loud)
    (fun kind => ResponsesKind.ofString kind == .completed)
    (fun s value kind => decodeKind limits s [] value (.ofString kind)) effect_decodeKind

end ResponsesStream

/-! ### Anthropic -/

def AnthropicKind.loud : AnthropicKind → Bool
  | .messageStart | .blockDelta | .messageStop => true
  | .blockStart | .messageDelta | .error | .other => false

namespace AnthropicStream

variable {s t : AnthropicStream} {usage : Option Json}

def loud (frame : SseFrame) : Bool :=
  (frameType F frame).any fun kind => (AnthropicKind.ofString kind).loud

def last (frame : SseFrame) : Bool :=
  (frameType F frame).any fun kind => AnthropicKind.ofString kind == .messageStop

theorem startUsage_flags (h : s.startUsage usage = .ok t) : t.created = s.created ∧
    t.completed = s.completed := by
  unfold startUsage at h
  split at h
  · simp only [do_ok] at h
    obtain ⟨inputTokens, -, outputTokens, -, rfl⟩ := h
    exact ⟨rfl, rfl⟩
  · cases h
    exact ⟨rfl, rfl⟩

theorem deltaUsage_flags (h : s.deltaUsage usage = .ok t) : t.created = s.created ∧
    t.completed = s.completed := by
  unfold deltaUsage at h
  split at h
  · simp only [do_ok] at h
    obtain ⟨outputTokens, -, rfl⟩ := h
    exact ⟨rfl, rfl⟩
  · cases h
    exact ⟨rfl, rfl⟩

theorem insertBlock_flags {index : Nat} {block : Option AnthropicBlock}
    (h : s.insertBlock index block = .ok t) :
    t.created = s.created ∧ t.completed = s.completed := by
  unfold insertBlock at h
  split at h
  · simp only [do_ok] at h
    obtain ⟨-, rfl⟩ := h
    exact ⟨rfl, rfl⟩
  · cases h
    exact ⟨rfl, rfl⟩

theorem delta_of_decodeDelta {delta : Json} {block : AnthropicBlock} {kind : DeltaKind}
    (h : decodeDelta limits [] delta block kind = .ok out) : ∃ e, out = [e] ∧ e.isDelta = true := by
  unfold decodeDelta at h
  split at h
  · obtain ⟨text, -, hpush⟩ := do_eq_ok.mp h
    exact delta_of_pushText hpush
  · obtain ⟨thinking, -, hpush⟩ := do_eq_ok.mp h
    exact delta_of_pushText hpush
  · obtain ⟨partialJson, -, hpush⟩ := do_eq_ok.mp h
    exact delta_of_pushTool hpush
  · cases h

theorem effect_decodeKind {value : Json} {kind : AnthropicKind}
    (h : s.decodeKind limits [] value kind = .ok (t, out)) :
    FrameEffect s.completed s.created t.created t.completed out ∧ kind.loud = (!out.isEmpty) ∧
      t.completed = (s.completed || kind == .messageStop) := by
  cases kind <;>
    simp only [decodeKind, do_ok, checks_ok, Prod.mk.injEq] at h
  case messageStart =>
    obtain ⟨hcreated, message, -, -, s', hstart, rfl, rfl⟩ := h
    obtain ⟨-, hd⟩ := startUsage_flags hstart
    rw [Bool.not_eq_true'] at hcreated
    rw [hcreated, hd]
    exact ⟨.creates _, rfl, (Bool.or_false _).symm⟩
  case blockStart =>
    obtain ⟨-, index, -, block, -, kind, -, block', -, s', hinsert, rfl, rfl⟩ := h
    obtain ⟨hc, hd⟩ := insertBlock_flags hinsert
    rw [hc, hd]
    exact ⟨.quiet _, rfl, (Bool.or_false _).symm⟩
  case blockDelta =>
    obtain ⟨hcreated, index, -, delta, -, block, -, kind, -, events, hdelta, rfl, rfl⟩ := h
    obtain ⟨e, rfl, he⟩ := delta_of_decodeDelta hdelta
    rw [hcreated]
    exact ⟨.delta he, rfl, (Bool.or_false _).symm⟩
  case messageDelta =>
    obtain ⟨-, s', husage, rfl, rfl⟩ := h
    obtain ⟨hc, hd⟩ := deltaUsage_flags husage
    rw [hc, hd]
    exact ⟨.quiet _, rfl, (Bool.or_false _).symm⟩
  case messageStop =>
    obtain ⟨hcreated, rfl, rfl⟩ := h
    rw [hcreated]
    exact ⟨.completes _, rfl, (Bool.or_true _).symm⟩
  case error => cases h
  case other =>
    obtain ⟨rfl, rfl⟩ := h
    exact ⟨.quiet _, rfl, (Bool.or_false _).symm⟩

/-- **Anthropic.** The decoder ends with `message_stop`. -/
theorem terminating (limits : UpstreamLimits) :
    Terminating (stepOf (decodeFrame F limits)) created completed (loud F) (last F) :=
  terminating_of_kind F created completed (fun kind => (AnthropicKind.ofString kind).loud)
    (fun kind => AnthropicKind.ofString kind == .messageStop)
    (fun s value kind => decodeKind limits s [] value (.ofString kind)) effect_decodeKind

end AnthropicStream

end Upstream

end Wokcore.Protocols
