import Wokcore.Lib.Call
import Wokcore.Lib.Json.ReadAs
import Wokcore.Protocols.Stream.SseEncode
import Wokcore.Protocols.Upstream.Shape

/-!
# What the client codecs share (`wokcore-protocols/src/outbound/`)

A client codec turns canonical events into the wire format of one client protocol, event by event
(`encode_event`, `encode_chunk`) or all at once (`encode_response`). The three codecs have the same
checks, each with limits of its own, and follow the same order of events: `Phase` is where a codec
is in that order.
-/

set_option autoImplicit false

namespace Wokcore.Protocols.Outbound

open Lib Call List

variable {fields : Members} {key : String} {p : String × Value → Bool} {e : CanonicalEvent}

/-! ## Checks -/

/-- `validate_identifier` of a codec's limits. -/
def checkIdentifier (maximum : Nat) (value : String) : Result Unit :=
  requireThat (!(value.isEmpty || value.utf8ByteSize > maximum))

/-- `validate_serialized`, which the Anthropic limits call `validate_value`. -/
def checkSerialized (maximum : Nat) (value : Json) : Result Unit :=
  requireThat (value.toVec.length ≤ maximum)

/-- `validate_string_map`. -/
def checkStringMap (maxItems maxIdentifier maxValue : Nat) (values : Extensions) : Result Unit := do
  requireThat (!(values.entries.length > maxItems))
  values.entries.forM fun e => checkIdentifier maxIdentifier e.1
  checkSerialized maxValue (Value.object values).tree

/-- `self.aggregate_bytes.checked_add(additional).filter(|total| *total <= maximum)`. -/
def checkAggregate (maximum aggregateBytes additional : Nat) : Result Nat :=
  orInvalid ((checkedAdd u64Max aggregateBytes additional).filter fun total => total ≤ maximum)

/-- `validate_context_once`: the context is validated by the first call that gets to it. -/
def validateOnce {σ : Type} (validated : σ → Bool) (validate : σ → Result Unit) (mark : σ → σ) :
    Call GatewayError σ Unit := do
  let c ← get
  if validated c then return ()
  else do
    lift (validate c)
    set (mark c)

theorem validateOnce_eq_ok {σ : Type} {validated : σ → Bool} {validate : σ → Result Unit}
    {mark : σ → σ} {c d : σ} {u : Unit} :
    validateOnce validated validate mark c = .ok u d ↔
      (validated c = true ∧ d = c) ∨ (validated c = false ∧ validate c = .ok () ∧ d = mark c) := by
  unfold validateOnce
  simp only [bind_eq_ok, get_eq_ok, and_assoc, exists_eq_left', exists_and_left]
  cases hvalid : validated c with
  | true =>
    rw [if_pos rfl, pure_eq_ok]
    simp [eq_comm]
  | false =>
    rw [if_neg Bool.false_ne_true]
    simp only [bind_eq_ok, lift_eq_ok, set_eq_ok, Outcome.exists_unit, and_assoc, exists_eq_left',
      exists_and_left]
    simp [eq_comm]

theorem errorsIn_validateOnce {σ α : Type} {validated : σ → Bool} {validate : σ → Result Unit}
    {mark : σ → σ} {Q : σ → Prop} {c : σ} {f : Unit → Call GatewayError σ α} (hc : Q c)
    (hf : ErrorsIn Q (f ()) c) (hmark : validate c = .ok () → ErrorsIn Q (f ()) (mark c)) :
    ErrorsIn Q (validateOnce validated validate mark >>= f) c := by
  refine .bind (.get ?_) ?_
  · split
    · exact .of_ok ⟨_, _, rfl⟩
    · exact .lift hc fun _ _ => .of_ok ⟨_, _, rfl⟩
  · intro u d hd
    rcases validateOnce_eq_ok.mp hd with ⟨-, rfl⟩ | ⟨-, hvalid, rfl⟩
    · exact hf
    · exact hmark hvalid

/-- A codec that is not terminal handles a call once its context is valid. -/
theorem guarded_eq_ok {σ α : Type} (terminal validated : σ → Bool) (validate : σ → Result Unit)
    {mark : σ → σ} (hmark : ∀ c, validated c = true → mark c = c) {f : Call GatewayError σ α}
    {c d : σ} {a : α} :
    (do
      let c ← get
      lift (requireThat (!terminal c))
      validateOnce validated validate mark
      f : Call GatewayError σ α) c = .ok a d ↔
      terminal c = false ∧ (validated c = true ∨ validate c = .ok ()) ∧ f (mark c) = .ok a d := by
  simp only [bind_eq_ok, get_eq_ok, lift_eq_ok, Result.requireThat_eq_ok, Outcome.exists_unit,
    and_assoc, exists_eq_left', exists_and_left, Bool.not_eq_true', validateOnce_eq_ok]
  refine and_congr_right fun _ => ?_
  constructor
  · rintro ⟨e, ⟨hvalid, rfl⟩ | ⟨-, hcontext, rfl⟩, hf⟩
    · rw [hmark e hvalid]
      exact ⟨.inl hvalid, hf⟩
    · exact ⟨.inr hcontext, hf⟩
  · rintro ⟨hcontext, hf⟩
    cases hvalid : validated c with
    | true =>
      rw [hmark c hvalid] at hf
      exact ⟨c, .inl ⟨rfl, rfl⟩, hf⟩
    | false =>
      rw [hvalid] at hcontext
      exact ⟨mark c, .inr ⟨rfl, hcontext.resolve_left Bool.false_ne_true, rfl⟩, hf⟩

/-! ## Documents -/

def optionJson {α : Type} (write : α → Json) : Option α → Json
  | some a => write a
  | none => .null

theorem ofNat_inj {i j : Nat} (hi : i < 2 ^ 64) (hj : j < 2 ^ 64)
    (h : Json.ofNat i = Json.ofNat j) : i = j := by
  simp only [Json.ofNat, Json.num.injEq, Num.nat.injEq] at h
  calc
    i = (UInt64.ofNat i).toNat := (UInt64.toNat_ofNat_of_lt hi).symm
    _ = (UInt64.ofNat j).toNat := by rw [h]
    _ = j := UInt64.toNat_ofNat_of_lt hj

theorem stringAt_norm {text : String} (hkey : fields.lookup key = some (.str text))
    (hnd : (fields.map Prod.fst).Nodup := by simp) :
    Upstream.stringAt (Json.obj fields).norm key = some text := by
  rw [Upstream.stringAt, get?_norm_obj key hnd, hkey]
  rfl

/-- The members of an object and, of a map, those whose key is still free
    (`value.entry(key).or_insert_with(..)`). -/
def orInsertAll (fields : Members) (more : Extensions) : Members :=
  fields ++ (more.entries.filter fun e => !(fields.map Prod.fst).contains e.1).map fun e =>
    (e.1, e.2.tree)

/-- Members and, behind them, entries of a map under other keys. -/
theorem nodup_append_entries (h : (fields.map Prod.fst).Nodup) (more : Extensions)
    (hp : ∀ e, p e = true → e.1 ∉ fields.map Prod.fst) :
    ((fields ++ (more.entries.filter p).map fun e => (e.1, e.2.tree)).map Prod.fst).Nodup := by
  have hkeys : ((more.entries.filter p).map Prod.fst).Nodup :=
    more.sorted.nodup_keys.sublist (filter_sublist.map _)
  rw [map_append, map_map]
  refine nodup_append.mpr ⟨h, hkeys, ?_⟩
  intro k hk l hl
  obtain ⟨e, he, rfl⟩ := mem_map.mp hl
  rintro rfl
  exact hp e (mem_filter.mp he).2 hk

theorem orInsertAll_nodup (h : (fields.map Prod.fst).Nodup) (more : Extensions) :
    ((orInsertAll fields more).map Prod.fst).Nodup :=
  nodup_append_entries h more fun e he => by simpa using he

theorem lookup_orInsertAll {x : Json} (h : fields.lookup key = some x) (more : Extensions) :
    (orInsertAll fields more).lookup key = some x := by
  rw [orInsertAll, lookup_append, h]
  rfl

theorem lookup_filter_entries (hp : ∀ v, p (key, v) = true) (entries : List (String × Value)) :
    ((entries.filter p).map fun e => (e.1, e.2.tree)).lookup key =
      (entries.lookup key).map Value.tree := by
  induction entries with
  | nil => rfl
  | cons e entries ih =>
    rw [filter_cons, lookup_cons_ite]
    by_cases hkey : key = e.1
    · subst hkey
      rw [if_pos (hp e.2), map_cons, lookup_cons_ite, if_pos rfl, if_pos rfl]
      rfl
    · rw [if_neg hkey]
      split
      · rw [map_cons, lookup_cons_ite, if_neg hkey, ih]
      · exact ih

theorem contains_eq_false_of_lookup (h : fields.lookup key = none) :
    (fields.map Prod.fst).contains key = false := by
  rw [lookup_eq_none_iff] at h
  simp only [contains_eq_mem, decide_eq_false_iff_not, mem_map, not_exists, not_and]
  intro m hm hkey
  simpa [hkey] using h m hm

/-- Under a key the members leave free, the entries decide. -/
theorem lookup_append_entries (fields : Members) (more : Extensions)
    (hp : fields.lookup key = none → ∀ v, p (key, v) = true) :
    (fields ++ (more.entries.filter p).map fun e => (e.1, e.2.tree)).lookup key =
      (fields.lookup key).or ((more.get? key).map Value.tree) := by
  rw [lookup_append]
  cases hfields : fields.lookup key with
  | some x => rfl
  | none => rw [Option.none_or, Option.none_or, lookup_filter_entries (hp hfields), EntryMap.get?]

/-- `filtered_extra`: the entries whose key is not reserved. -/
def filteredExtra (extra : Extensions) (reserved : List String) : Members :=
  (extra.entries.filter fun e => !reserved.contains e.1).map fun e => (e.1, e.2.tree)

theorem lookup_filteredExtra (extra : Extensions) (reserved : List String) (key : String) :
    (filteredExtra extra reserved).lookup key =
      if key ∈ reserved then none else (extra.get? key).map Value.tree := by
  split
  · next hreserved =>
    refine lookup_eq_none_of_not_mem ?_
    simp [filteredExtra, hreserved]
  · next hkept => exact lookup_filter_entries (fun _ => by simpa using hkept) extra.entries

/-- `a.saturating_add(b)` of two words. -/
def satWord (a b : UInt64) : UInt64 := .ofNat (satAdd u64Max a.toNat b.toNat)

/-! ## The order of events -/

/-- Where a codec is in its response. -/
inductive Phase where
  | waiting
  | «open»
  | counted
  | closed
deriving DecidableEq

/-- The order all codecs follow: `Created`, deltas, `Usage`, `Completed`, and `Failed` at any
    time. -/
def Phase.next : Phase → CanonicalEvent → Option Phase
  | .waiting, .created _ => some .open
  | .open, .outputTextDelta .. => some .open
  | .open, .reasoningDelta .. => some .open
  | .open, .toolCallDelta .. => some .open
  | .open, .usage _ => some .counted
  | .counted, .completed => some .closed
  | .closed, .failed _ => none
  | _, .failed _ => some .closed
  | _, _ => none

/-- What every codec remembers of the events so far. -/
structure Flags where
  terminal : Bool
  created : Bool
  counted : Bool

def Flags.phase (f : Flags) : Phase :=
  if f.terminal then .closed else if !f.created then .waiting else if f.counted then .counted
    else .open

/-- There is no usage without a response. -/
def Flags.Sound (f : Flags) : Prop := f.counted = true → f.created = true

/-- What a successful call does to the flags. -/
inductive Flags.Step : CanonicalEvent → Flags → Flags → Prop where
  | created (id : String) (counted : Bool) : Step (.created id) ⟨false, false, counted⟩
    ⟨false, true, counted⟩
  | delta {e : CanonicalEvent} (h : e.isDelta = true) : Step e ⟨false, true, false⟩
    ⟨false, true, false⟩
  | usage (usage : Usage) : Step (.usage usage) ⟨false, true, false⟩ ⟨false, true, true⟩
  | completed : Step .completed ⟨false, true, true⟩ ⟨true, true, true⟩
  | failed (error : GatewayError) (created counted : Bool) :
      Step (.failed error) ⟨false, created, counted⟩ ⟨true, created, counted⟩

theorem Flags.Step.sound {f g : Flags} (h : Step e f g) (hf : f.Sound) : g.Sound := by
  cases h with
  | created | usage | completed => exact fun _ => rfl
  | delta | failed => exact hf

theorem Flags.Step.next {f g : Flags} (h : Step e f g) (hf : f.Sound) :
    f.phase.next e = some g.phase := by
  cases h with
  | created id counted =>
    cases counted with
    | true => cases hf rfl
    | false => rfl
  | delta hdelta =>
    cases e with
    | outputTextDelta | reasoningDelta | toolCallDelta => rfl
    | _ => cases hdelta
  | usage | completed => rfl
  | failed error created counted =>
    cases created with
    | true => cases counted <;> rfl
    | false => rfl

/-- A codec takes events in order only. -/
structure Ordered {σ ε β : Type} (step : σ → CanonicalEvent → Except ε (σ × List β))
    (phase : σ → Phase) (sound : σ → Prop) : Prop where
  next : ∀ {s e t out}, sound s → step s e = .ok (t, out) → (phase s).next e = some (phase t)
  sound : ∀ {s e t out}, sound s → step s e = .ok (t, out) → sound t

theorem Ordered.of_flags {σ ε β : Type} {step : σ → CanonicalEvent → Except ε (σ × List β)}
    {flags : σ → Flags} (h : ∀ {s e t out}, step s e = .ok (t, out) → Flags.Step e (flags s)
    (flags t)) :
    Ordered step (fun s => (flags s).phase) fun s => (flags s).Sound where
  next hs hstep := (h hstep).next hs
  sound hs hstep := (h hstep).sound hs

theorem Phase.next_closed (e : CanonicalEvent) : Phase.next .closed e = none := by
  cases e <;> rfl

section Runs

variable {σ ε β : Type} {step : σ → CanonicalEvent → Except ε (σ × List β)} {phase : σ → Phase}
  {sound : σ → Prop} {s t : σ} {events : Events} {out : List β} (h : Ordered step phase sound)
  (hs : sound s)
include h hs

theorem Ordered.cons {e : CanonicalEvent} {before : Phase} (hphase : phase s = before)
    (hrun : feed step s (e :: events) = .ok (t, out)) :
    ∃ u p, before.next e = some (phase u) ∧ sound u ∧ feed step u events = .ok (t, p) := by
  obtain ⟨u, o, p, hstep, hrest, -⟩ := feed_cons_eq_ok.mp hrun
  exact ⟨u, p, hphase ▸ h.next hs hstep, h.sound hs hstep, hrest⟩

theorem Ordered.closed (hphase : phase s = .closed) (hrun : feed step s events = .ok (t, out)) :
    events = [] := by
  cases events with
  | nil => rfl
  | cons e events =>
    obtain ⟨u, p, hnext, -, -⟩ := h.cons hs hphase hrun
    rw [Phase.next_closed] at hnext
    cases hnext

theorem Ordered.counted (hphase : phase s = .counted)
    (hrun : feed step s events = .ok (t, out)) (hcompleted : .completed ∈ events) :
    events = [.completed] := by
  cases events with
  | nil => cases hcompleted
  | cons e events =>
    obtain ⟨u, p, hnext, hu, hrest⟩ := h.cons hs hphase hrun
    cases e with
    | completed => rw [h.closed hu (Option.some.inj hnext).symm hrest]
    | failed error =>
      rw [h.closed hu (Option.some.inj hnext).symm hrest] at hcompleted
      cases mem_singleton.mp hcompleted
    | _ => cases hnext

theorem Ordered.opened (hphase : phase s = .open)
    (hrun : feed step s events = .ok (t, out)) (hcompleted : .completed ∈ events) :
    ∃ deltas usage, AllDeltas deltas ∧ events = deltas ++ [.usage usage, .completed] := by
  induction events generalizing s out with
  | nil => cases hcompleted
  | cons e events ih =>
    obtain ⟨u, p, hnext, hu, hrest⟩ := h.cons hs hphase hrun
    have hdelta : e.isDelta = true → ∃ deltas usage, AllDeltas deltas ∧
        e :: events = deltas ++ [.usage usage, .completed] := by
      intro he
      have hopen : phase u = .open := by
        cases e <;> first | exact (Option.some.inj hnext).symm | cases he
      have hin : .completed ∈ events := by
        rcases mem_cons.mp hcompleted with rfl | hin
        · cases he
        · exact hin
      obtain ⟨deltas, usage, hdeltas, rfl⟩ := ih hu hopen hrest hin
      exact ⟨e :: deltas, usage, (AllDeltas.singleton he).append hdeltas, rfl⟩
    cases e with
    | outputTextDelta | reasoningDelta | toolCallDelta => exact hdelta rfl
    | usage usage =>
      have hin := (mem_cons.mp hcompleted).resolve_left nofun
      rw [h.counted hu (Option.some.inj hnext).symm hrest hin]
      exact ⟨[], usage, .nil, rfl⟩
    | failed error =>
      rw [h.closed hu (Option.some.inj hnext).symm hrest] at hcompleted
      cases mem_singleton.mp hcompleted
    | created | completed => cases hnext

/-- **The only shape a codec completes.** -/
theorem Ordered.shaped (hphase : phase s = .waiting)
    (hrun : feed step s events = .ok (t, out)) (hcompleted : .completed ∈ events) :
    shaped events = true := by
  cases events with
  | nil => cases hcompleted
  | cons e events =>
    obtain ⟨u, p, hnext, hu, hrest⟩ := h.cons hs hphase hrun
    cases e with
    | created id =>
      have hin := (mem_cons.mp hcompleted).resolve_left nofun
      obtain ⟨deltas, usage, hdeltas, rfl⟩ := h.opened hu (Option.some.inj hnext).symm hrest hin
      exact shaped_iff.mpr ⟨id, deltas, usage, hdeltas, rfl⟩
    | failed error =>
      rw [h.closed hu (Option.some.inj hnext).symm hrest] at hcompleted
      cases mem_singleton.mp hcompleted
    | _ => cases hnext

end Runs

section Steps

variable {σ β : Type} {method : CanonicalEvent → Call GatewayError σ (List β)} {c d : σ}
    {out : List β}

/-- What a codec does with an event once its checks have passed. -/
theorem handle_of_step {e : CanonicalEvent} {terminal validated handled : Prop}
    (hmethod : method e c = .ok out d ↔ terminal ∧ validated ∧ handled)
    (h : Call.stepOfCall method c e = .ok (d, out)) : handled :=
  (hmethod.mp (Call.outcome_eq_ok.mp h)).2.2

/-- A whole response is created, carried and closed by calls of the same codec. -/
theorem steps_of_runAll {id : String} {deltas : Events} {usage : Usage}
    (h : Call.runAll method c (whole id deltas usage) = .ok (d, out)) :
    ∃ c₁ c₂ c₃ first carried counted last, Call.stepOfCall method c (.created id) =
      .ok (c₁, first) ∧ Call.runAll method c₁ deltas = .ok (c₂, carried) ∧
      Call.stepOfCall method c₂ (.usage usage) = .ok (c₃, counted) ∧
      Call.stepOfCall method c₃ .completed = .ok (d, last) ∧
      out = first ++ (carried ++ (counted ++ last)) := by
  obtain ⟨c₁, first, rest₁, hcreated, h₁, rfl⟩ := feed_cons_eq_ok.mp h
  obtain ⟨c₂, carried, rest₂, hdeltas, h₂, rfl⟩ := feed_append.mp h₁
  obtain ⟨c₃, counted, last, husage, h₃, rfl⟩ := feed_cons_eq_ok.mp h₂
  rw [feed_singleton] at h₃
  exact ⟨c₁, c₂, c₃, first, carried, counted, last, hcreated, hdeltas, husage, h₃, rfl⟩

end Steps

end Wokcore.Protocols.Outbound
