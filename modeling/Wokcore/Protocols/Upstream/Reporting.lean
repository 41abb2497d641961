import Wokcore.Protocols.Upstream.Shape

/-!
# What a document tells of a response (`outbound/azure.rs`, `outbound/gemini.rs`)

The Azure and Gemini decoders read a response document by document. Each document may create the
response, adds deltas and may carry a usage; `Usage` and `Completed` are only written at the end.
The OpenAI Chat protocol shares the Azure decoder.
-/

set_option autoImplicit false

namespace Wokcore.Protocols.Upstream

open Lib Protocols.Stream Outcome Result GeminiResponseDecoder

variable {limits : UpstreamLimits} {events : Events}

/-! ## The end of a document response -/

/-- The end of a response has a usage or has not. -/
theorem shaped_closing {created : Bool} (h : Progress created false events) (responseId : String)
    (usage : Option Usage) :
    shaped (events ++ closingEvents created responseId usage) = usage.isSome := by
  cases h with
  | idle =>
    cases usage with
    | none | some => rfl
  | «open» id hopen =>
    rw [closingEvents, if_pos rfl, List.nil_append, List.cons_append, shaped_of hopen]
    cases usage with
    | none | some => rfl

/-! ## Documents -/

/-- A decoder's memory: the response is created, the response is completed, a usage was told. -/
abbrev Told := Bool × Bool × Bool

section Told

variable {δ : Type} {told : δ → Told} {r s t : δ × Events} {a b : Bool}

/-- A piece of a document adds deltas, and a usage if it carries one. -/
structure Grows (told : δ → Told) (carried : Bool) (r r' : δ × Events) : Prop where
  told : told r'.1 = ((told r.1).1, (told r.1).2.1, (told r.1).2.2 || carried)
  events : AddsDeltas r.2 r'.2

theorem Grows.keeps (h : told s.1 = told r.1) (hevents : AddsDeltas r.2 s.2) :
    Grows told false r s :=
  ⟨by rw [h, Bool.or_false], hevents⟩

theorem Grows.refl (r : δ × Events) : Grows told false r r :=
  .keeps rfl (.refl _)

theorem Grows.trans (h₁ : Grows told a r s) (h₂ : Grows told b s t) : Grows told (a || b) r t where
  told := by rw [h₂.told, h₁.told, Bool.or_assoc]
  events := h₁.events.trans h₂.events

/-- A loop over pieces, with the decoder somewhere in its state. -/
theorem Grows.foldlM {ρ α : Type} (reading : ρ → δ × Events) {push : ρ → α → Result ρ}
    (hpush : ∀ {r a r'}, push r a = .ok r' → Grows told false (reading r) (reading r'))
    {as : List α} {r r' : ρ} (h : as.foldlM push r = .ok r') :
    Grows told false (reading r) (reading r') :=
  Outcome.rel_of_foldlM (R := fun r r' => Grows told false (reading r) (reading r'))
    (fun _ => .refl _) (fun h₁ h₂ => h₁.trans h₂) hpush h

/-- What a document does to the decoder. -/
structure Decodes (told : δ → Told) (carried : Bool) (d : δ) (r : δ × Events) : Prop where
  effect : DocumentEffect (told d).1 (told r.1).1 r.2
  told : told r.1 = (true, (told d).2.1, (told d).2.2 || carried)

theorem Decodes.created {d : δ} (h : Decodes told a d r) : (told r.1).1 = true :=
    congrArg (·.1) h.told

theorem Decodes.completed {d : δ} (h : Decodes told a d r) : (told r.1).2.1 = (told d).2.1 :=
    congrArg (·.2.1) h.told

theorem Decodes.usage {d : δ} (h : Decodes told a d r) : (told r.1).2.2 = ((told d).2.2 || a) :=
  congrArg (·.2.2) h.told

/-- The response is created if it was not. -/
def Starts (told : δ → Told) (d : δ) (r : δ × Events) : Prop :=
  told r.1 = (true, (told d).2) ∧ DocumentEffect (told d).1 true r.2

theorem Starts.decodes {d : δ} (h : Starts told d r) (hgrows : Grows told a r s) :
    Decodes told a d s := by
  obtain ⟨deltas, hdeltas, hevents⟩ := hgrows.events
  have htold := hgrows.told
  rw [h.1] at htold
  refine ⟨?_, htold⟩
  rw [htold, hevents]
  exact h.2.more hdeltas

/-- A decoder that writes `Created` if it has not. -/
theorem Starts.of_ite {d : δ} (d' : δ) {id : String} {check : Result Unit}
    (hcreated : told d' = (true, (told d).2)) (h : (if (told d).1 then .ok (d, []) else do
      check
      let events ← pushEvent [] (.created id) limits
      return (d', events)) = Except.ok r) : Starts told d r := by
  split at h
  · next hd =>
    cases h
    exact ⟨Prod.ext hd rfl, by rw [hd]; exact .adds true .nil nofun⟩
  · next hd =>
    simp only [do_ok, pushEvent_eq_ok] at h
    obtain ⟨-, events, ⟨-, rfl⟩, rfl⟩ := h
    exact ⟨hcreated, by rw [(Bool.not_eq_true _).mp hd]; exact .creates _ .nil⟩

/-- A decoder that keeps the usage of a document, if it has one. -/
theorem Grows.of_match {usage : Option Json} (read : Json → Result Usage) (set : Usage → δ)
    (hset : ∀ u, told (set u) = ((told r.1).1, (told r.1).2.1, true)) (h : (match usage with
      | some usage => do
        let usage ← read usage
        return (set usage, r.2)
      | none => .ok r) = .ok s) : Grows told usage.isSome r s := by
  cases usage with
  | none =>
    cases h
    exact .refl _
  | some usage =>
    obtain ⟨u, -, h⟩ := do_eq_ok.mp h
    cases h
    exact ⟨by rw [hset, Option.isSome_some, Bool.or_true], .refl _⟩

/-- A stream whose frames are documents, or nothing, keeps the usage for the end. -/
theorem Reporting.of_decodes {σ : Type} {step : σ → SseFrame → Result (σ × Events)}
    (told : δ → Told) (decoder : σ → δ) (usage : δ → Option Usage) {carries : SseFrame → Bool}
    (husage : ∀ d, (told d).2.2 = (usage d).isSome)
      (hstep : ∀ {s f t out}, step s f = .ok (t, out) → Decodes told (carries f) (decoder s)
      (decoder t, out) ∨ (carries f = false ∧ decoder t = decoder s ∧ out = [])) :
    Reporting step (fun s => (told (decoder s)).1) (fun s => (told (decoder s)).2.1)
    (fun s => usage (decoder s))
      carries := by
  constructor
  case effect =>
    intro s f t out h
    rcases hstep h with hdecodes | ⟨-, hsame, rfl⟩
    · exact hdecodes.effect
    · rw [hsame]
      exact .adds _ .nil fun _ => rfl
  case completed =>
    intro s f t out h
    rcases hstep h with hdecodes | ⟨-, hsame, -⟩
    · exact hdecodes.completed
    · rw [hsame]
  case usage =>
    intro s f t out h
    rw [← husage, ← husage]
    rcases hstep h with hdecodes | ⟨hcarries, hsame, -⟩
    · exact hdecodes.usage
    · rw [hsame, hcarries, Bool.or_false]

end Told

/-! ## Azure and OpenAI Chat -/

namespace AzureResponseDecoder

variable {d : AzureResponseDecoder} {root : Json}

def told (d : AzureResponseDecoder) : Told := (d.created, d.completed, d.pendingUsage.isSome)

variable {r r' : Reading} {reasoning : Bool} {index : Nat} {fields choice : Json}

abbrev Adds := Grows told false

theorem adds_pushText {text : String} (h : pushText r text reasoning = .ok r') : Adds r r' := by
  simp only [pushText, do_ok, pushEvent_eq_ok] at h
  obtain ⟨-, events, ⟨-, rfl⟩, rfl⟩ := h
  exact .keeps rfl (.singleton (isDelta_textEvent _ _ _))

theorem adds_registerTool {d' : AzureResponseDecoder} (events : Events) {callId name : String}
    (h : d.registerTool index callId name = .ok d') : Adds (d, events) (d', events) := by
  simp only [registerTool, do_ok] at h
  obtain ⟨-, -, h⟩ := h
  split at h
  · obtain ⟨-, -, h⟩ := do_eq_ok.mp h
    cases h
    exact .refl _
  · cases h
    exact .keeps rfl (.refl _)

theorem adds_emitTool {arguments : String} (h : emitTool r index arguments = .ok r') :
    Adds r r' := by
  simp only [emitTool, do_ok, pushEvent_eq_ok] at h
  obtain ⟨-, state, -, events, ⟨-, rfl⟩, rfl⟩ := h
  exact .keeps rfl (.singleton rfl)

theorem adds_pushCompleteTool {entry : Json × Nat}
    (h : pushCompleteTool r entry = .ok r') : Adds r r' := by
  simp only [pushCompleteTool, do_eq_ok] at h
  obtain ⟨function, -, callId, -, name, -, arguments, -, d, hregister, hemit⟩ := h
  exact (adds_registerTool r.2 hregister).trans (adds_emitTool hemit)

theorem adds_pushToolDelta {call : Json} (h : pushToolDelta r call = .ok r') : Adds r r' := by
  simp only [pushToolDelta, do_ok] at h
  obtain ⟨index, -, -, function, -, d, hregister, hemit⟩ := h
  have hnamed : Adds r (d, r.2) := by
    unfold registerNamed at hregister
    split at hregister
    · exact adds_registerTool _ hregister
    · cases hregister
      exact .refl _
  refine hnamed.trans ?_
  unfold emitArguments at hemit
  split at hemit
  · exact adds_emitTool hemit
  · cases hemit
    exact .refl _

theorem adds_pushMember {key : String} (h : pushMember r fields key reasoning = .ok r') :
    Adds r r' := by
  unfold pushMember at h
  split at h
  · exact adds_pushText h
  · cases h
    exact .refl _

theorem adds_pushCalls {α : Type} {entries : List Json → List α}
    {push : Reading → α → Result Reading} (hpush : ∀ {r a r'}, push r a = .ok r' → Adds r r')
    (h : pushCalls r fields entries push = .ok r') : Adds r r' := by
  unfold pushCalls at h
  split at h
  · obtain ⟨calls, -, hfold⟩ := do_eq_ok.mp h
    exact Grows.foldlM id hpush hfold
  · cases h
    exact .refl _

theorem adds_decodeChoice (h : decodeChoice r choice = .ok r') : Adds r r' := by
  simp only [decodeChoice, do_eq_ok] at h
  obtain ⟨message, -, r₁, h₁, r₂, h₂, h₃⟩ := h
  exact ((adds_pushMember h₁).trans (adds_pushMember h₂)).trans
    (adds_pushCalls adds_pushCompleteTool h₃)

theorem adds_decodeDelta (h : decodeDelta r choice = .ok r') : Adds r r' := by
  simp only [decodeDelta, do_eq_ok] at h
  obtain ⟨delta, -, r₁, h₁, r₂, h₂, h₃⟩ := h
  exact ((adds_pushMember h₁).trans (adds_pushMember h₂)).trans
    (adds_pushCalls adds_pushToolDelta h₃)

theorem adds_decodeChoices (h : decodeChoices r root = .ok r') : Adds r r' := by
  unfold decodeChoices at h
  split at h
  · obtain ⟨choices, -, hfold⟩ := do_eq_ok.mp h
    exact Grows.foldlM id adds_decodeDelta hfold
  · cases h
    exact .refl _

theorem starts_ensureCreated (h : ensureCreated (d, []) root = .ok r) : Starts told d r :=
  .of_ite { d with created := true } rfl h

theorem grows_takeUsage (h : takeUsage r root = .ok r') :
    Grows told (root.get? "usage").isSome r r' :=
  .of_match (openaiUsage · r.1.limits) (fun usage => { r.1 with pendingUsage := some usage })
    (fun _ => rfl) h

theorem decodes_decodeStreamChunk (h : d.decodeStreamChunk root = .ok r) :
    Decodes told (root.get? "usage").isSome d r := by
  simp only [decodeStreamChunk, do_ok] at h
  obtain ⟨-, r₁, h₁, r₂, h₂, h₃⟩ := h
  exact (starts_ensureCreated h₁).decodes ((adds_decodeChoices h₂).trans (grows_takeUsage h₃))

theorem decodes_decodeNonStream (h : d.decodeNonStream root = .ok r) :
    Decodes told (root.get? "usage").isSome d r := by
  simp only [decodeNonStream, do_ok] at h
  obtain ⟨-, r₁, h₁, choices, -, choices', -, r₂, h₂, h₃⟩ := h
  exact (starts_ensureCreated h₁).decodes
    ((Grows.foldlM id adds_decodeChoice h₂).trans (grows_takeUsage h₃))

end AzureResponseDecoder

/-- What is added event by event is what was asked for. -/
theorem pushEvents_eq_ok {done : Events} (h : pushEvents limits events = .ok done) :
    done = events := by
  have hfold : ∀ (events start done : Events),
      events.foldlM (fun done event => pushEvent done event limits) start = .ok done →
      done = start ++ events := by
    intro events
    induction events with
    | nil =>
      intro start done h
      cases h
      exact (List.append_nil _).symm
    | cons e events ih =>
      intro start done h
      rw [List.foldlM_cons] at h
      obtain ⟨next, he, hrest⟩ := do_eq_ok.mp h
      obtain ⟨-, rfl⟩ := pushEvent_eq_ok.mp he
      rw [ih _ _ hrest, List.append_assoc, List.singleton_append]
  exact hfold events [] done h

theorem AzureResponseDecoder.finish_eq_ok {d d' : AzureResponseDecoder} {out : Events}
    (hd : d.completed = false) (h : d.finish = .ok (d', out)) :
    out = closingEvents d.created ("azure_" ++ d.requestId) d.pendingUsage := by
  simp only [finish, hd, Bool.false_eq_true, if_false, do_ok, Prod.mk.injEq] at h
  obtain ⟨events, hpush, -, rfl⟩ := h
  exact pushEvents_eq_ok hpush

variable (F : FloatReader)

namespace AzureStream

variable {F} {s t : AzureStream × Nat} {frame : SseFrame} {out : Events}

/-- A frame is the marker of the end or a document. -/
theorem decodeFrame_cases (h : stepOf (decodeFrame F limits) s frame = .ok (t, out)) :
    (isDone frame = true ∧ t.1 = { s.1 with sawDone := true } ∧ out = []) ∨
      (isDone frame = false ∧ ∃ value decoder, readText F frame.data = .ok value ∧
        s.1.decoder.decodeStreamChunk value = .ok (decoder, out) ∧ t.1 = { s.1 with decoder }) := by
  unfold stepOf decodeFrame at h
  dsimp only at h
  split at h
  · cases h
  · split at h
    · next hdone =>
      cases h
      exact .inl ⟨hdone, rfl, rfl⟩
    · next hdone =>
      simp only [do_ok, Prod.mk.injEq, Prod.exists, List.nil_append] at h
      obtain ⟨value, hvalue, decoder, decoded, hdecode, emitted, -, rfl, rfl⟩ := h
      exact .inr ⟨(Bool.not_eq_true _).mp hdone, value, decoder, hvalue, hdecode, rfl⟩

theorem closed_step (h : stepOf (decodeFrame F limits) s frame = .ok (t, out)) :
    t.1.closed = (s.1.closed || isDone frame) := by
  rcases decodeFrame_cases h with ⟨hdone, hs, -⟩ | ⟨hdone, value, decoder, -, -, hs⟩
  · rw [hs, hdone, closed, Bool.or_true, Bool.or_true]
  · rw [hs, hdone, Bool.or_false]
    rfl

variable (F)

/-- Whether a frame tells a usage. -/
def carriesUsage (frame : SseFrame) : Bool :=
  !isDone frame && (((readText F frame.data).toOption.bind (·.get? "usage")).isSome)

/-- **Azure and OpenAI Chat.** A usage is a `usage` member of a document. -/
theorem reporting (limits : UpstreamLimits) :
    Reporting (stepOf (decodeFrame F limits)) (fun s => s.1.decoder.created)
      (fun s => s.1.decoder.completed) (fun s => s.1.decoder.pendingUsage) (carriesUsage F) := by
  refine Reporting.of_decodes AzureResponseDecoder.told (fun s : AzureStream × Nat => s.1.decoder)
    AzureResponseDecoder.pendingUsage (fun _ => rfl) ?_
  intro s frame t out h
  rcases decodeFrame_cases h with ⟨hdone, hs, rfl⟩ | ⟨hdone, value, decoder, hvalue, hdecode, hs⟩
  · exact .inr ⟨by rw [carriesUsage, hdone]; rfl, by rw [hs], rfl⟩
  · refine .inl ?_
    rw [carriesUsage, hdone, hvalue, hs]
    exact AzureResponseDecoder.decodes_decodeStreamChunk hdecode

end AzureStream

/-! ## Gemini -/

namespace GeminiResponseDecoder

variable {root : Json} {d : GeminiResponseDecoder}

def told (d : GeminiResponseDecoder) : Told := (d.created, d.completed, d.pendingUsage.isSome)

variable {r r' : Reading} {part candidate : Json}

abbrev Adds := Grows told false

theorem adds_decodeText (h : decodeText r part = .ok r') : Adds r r' := by
  unfold decodeText at h
  split at h
  · simp only [do_ok, pushEvent_eq_ok] at h
    obtain ⟨-, events, ⟨-, rfl⟩, rfl⟩ := h
    exact .keeps rfl (.singleton (isDelta_textEvent _ _ _))
  · cases h
    exact .refl _

theorem adds_decodeCall (h : decodeCall r part = .ok r') : Adds r r' := by
  unfold decodeCall at h
  split at h
  · simp only [do_ok, pushEvent_eq_ok] at h
    obtain ⟨name, -, -, -, -, events, ⟨-, rfl⟩, rfl⟩ := h
    exact .keeps rfl (.singleton rfl)
  · cases h
    exact .refl _

theorem adds_decodePart (h : decodePart r part = .ok r') : Adds r r' := by
  simp only [decodePart, do_eq_ok] at h
  obtain ⟨r₁, h₁, h₂⟩ := h
  exact (adds_decodeText h₁).trans (adds_decodeCall h₂)

theorem adds_decodeParts (h : decodeParts r candidate = .ok r') : Adds r r' := by
  unfold decodeParts at h
  split at h
  · obtain ⟨parts, -, h⟩ := do_eq_ok.mp h
    exact Grows.foldlM id adds_decodePart h
  · cases h
    exact .refl _

theorem adds_decodeCandidate {r r' : Reading × Bool} (h : decodeCandidate r candidate = .ok r') :
    Adds r.1 r'.1 := by
  simp only [decodeCandidate, do_ok] at h
  obtain ⟨ends, -, reading, hparts, rfl⟩ := h
  exact adds_decodeParts hparts

theorem adds_decodeCandidates (h : decodeCandidates r root = .ok r') : Adds r r' := by
  unfold decodeCandidates at h
  split at h
  · simp only [do_ok, Prod.exists] at h
    obtain ⟨candidates, -, d, events, sawTerminal, h, rfl⟩ := h
    exact (Grows.foldlM Prod.fst adds_decodeCandidate h).trans
      (.keeps (s := (_, events)) rfl (.refl _))
  · cases h
    exact .refl _

theorem starts_ensureCreated (h : ensureCreated (d, []) root = .ok r) : Starts told d r :=
  .of_ite { d with created := true } rfl h

theorem grows_takeUsage (h : takeUsage r root = .ok r') :
    Grows told (root.get? "usageMetadata").isSome r r' :=
  .of_match (geminiUsage · r.1.limits) (fun usage => { r.1 with pendingUsage := some usage })
    (fun _ => rfl) h

theorem decodes_decodeValue (h : d.decodeValue root = .ok r) :
    Decodes told (root.get? "usageMetadata").isSome d r := by
  simp only [decodeValue, do_ok] at h
  obtain ⟨-, -, -, r₁, h₁, r₂, h₂, h₃⟩ := h
  have hgrows := (grows_takeUsage h₂).trans (adds_decodeCandidates h₃)
  rw [Bool.or_false] at hgrows
  exact (starts_ensureCreated h₁).decodes hgrows

theorem sawTerminal_ensureCreated (h : ensureCreated (d, []) root = .ok r) :
    r.1.sawTerminal = d.sawTerminal := by
  simp only [ensureCreated] at h
  split at h
  · cases h
    rfl
  · simp only [do_ok] at h
    obtain ⟨-, events, -, rfl⟩ := h
    rfl

theorem sawTerminal_takeUsage (h : takeUsage r root = .ok r') :
    r'.1.sawTerminal = r.1.sawTerminal := by
  unfold takeUsage at h
  split at h
  · obtain ⟨usage, -, h⟩ := do_eq_ok.mp h
    cases h
    rfl
  · cases h
    rfl

/-- Whether a candidate says why it ended. -/
def hasEnded (candidate : Json) : Bool := (candidate.get? "finishReason").isSome

theorem candidateEnds_eq_ok {ends : Bool} (h : candidateEnds candidate = .ok ends) :
    ends = hasEnded candidate := by
  unfold candidateEnds at h
  unfold hasEnded
  split at h
  · next hreason =>
    obtain ⟨_, -, h⟩ := do_eq_ok.mp h
    cases h
    rw [hreason]
    rfl
  · next hreason =>
    cases h
    rw [hreason]
    rfl

theorem ends_foldlM {candidates : List Json} {r r' : Reading × Bool}
    (h : candidates.foldlM decodeCandidate r = .ok r') :
    r'.2 = (r.2 || candidates.any hasEnded) := by
  induction candidates generalizing r with
  | nil =>
    cases h
    exact (Bool.or_false _).symm
  | cons candidate candidates ih =>
    rw [List.foldlM_cons] at h
    obtain ⟨s, hs, hrest⟩ := do_eq_ok.mp h
    simp only [decodeCandidate, do_ok] at hs
    obtain ⟨ends, hends, reading, -, rfl⟩ := hs
    rw [ih hrest, candidateEnds_eq_ok hends, List.any_cons, Bool.or_assoc]

/-- Whether a document has a candidate that ended. -/
def ends (root : Json) : Bool := ((root.get? "candidates").bind Json.asArray).any (·.any hasEnded)

theorem sawTerminal_decodeValue (h : d.decodeValue root = .ok r) :
    r.1.sawTerminal = (d.sawTerminal || ends root) := by
  simp only [decodeValue, do_ok, checks_ok, Bool.not_eq_true'] at h
  obtain ⟨hopen, -, -, r₁, h₁, r₂, h₂, h₃⟩ := h
  have hsame : r₂.1.sawTerminal = d.sawTerminal := (sawTerminal_takeUsage h₂).trans
    (sawTerminal_ensureCreated h₁)
  unfold decodeCandidates at h₃
  rw [ends]
  split at h₃
  · next hget =>
    simp only [boundedArray, do_ok, Prod.exists] at h₃
    obtain ⟨_, ⟨candidates, harray, -, rfl⟩, e, events, sawTerminal, hfold, rfl⟩ := h₃
    rw [hopen, hget, Option.bind_some, orInvalid_eq_ok.mp harray]
    exact ends_foldlM hfold
  · next hget =>
    cases h₃
    rw [hsame, hget]
    exact (Bool.or_false _).symm

theorem finish_eq_ok {d' : GeminiResponseDecoder} {out : Events} (hd : d.completed = false)
    (h : d.finish = .ok (d', out)) :
    out = closingEvents d.created ("gemini_" ++ d.requestId) d.pendingUsage := by
  simp only [finish, hd, Bool.false_eq_true, if_false, do_ok, Prod.mk.injEq] at h
  obtain ⟨events, hpush, -, rfl⟩ := h
  exact pushEvents_eq_ok hpush

end GeminiResponseDecoder

namespace GeminiStream

/-- Whether a frame tells a usage. -/
def carriesUsage (frame : SseFrame) : Bool :=
  ((readText F frame.data).toOption.bind (·.get? "usageMetadata")).isSome

/-- **Gemini.** A usage is a `usageMetadata` member of a document. -/
theorem reporting (limits : UpstreamLimits) :
    Reporting (stepOf (decodeFrame F limits)) (fun s => s.1.decoder.created)
      (fun s => s.1.decoder.completed) (fun s => s.1.decoder.pendingUsage) (carriesUsage F) := by
  refine Reporting.of_decodes told (fun s : GeminiStream × Nat => s.1.decoder)
    pendingUsage (fun _ => rfl) ?_
  intro s frame t out h
  simp only [stepOf, decodeFrame, do_ok, Prod.mk.injEq, Prod.exists, List.nil_append] at h
  obtain ⟨value, hvalue, decoder, decoded, hdecode, emitted, -, rfl, rfl⟩ := h
  refine .inl ?_
  rw [carriesUsage, hvalue]
  exact decodes_decodeValue hdecode

/-- Whether a frame is a document with a candidate that ended. -/
def last (frame : SseFrame) : Bool := (readText F frame.data).toOption.any ends

theorem closed_step {F : FloatReader} {s t : GeminiStream × Nat} {frame : SseFrame} {out : Events}
    (h : stepOf (decodeFrame F limits) s frame = .ok (t, out)) :
    t.1.closed = (s.1.closed || last F frame) := by
  simp only [stepOf, decodeFrame, do_ok, Prod.mk.injEq, Prod.exists] at h
  obtain ⟨value, hvalue, decoder, decoded, hdecode, emitted, -, rfl, -⟩ := h
  rw [closed, closed, sawTerminal_decodeValue hdecode, last, hvalue, Bool.or_assoc]
  rfl

end GeminiStream

end Wokcore.Protocols.Upstream
