import Wokcore.Lib.Feed
import Wokcore.Lib.Word
import Wokcore.Lib.Json.Text

/-!
# The event stream decoder (`wokcore-protocols/src/stream/sse.rs`)

`SseDecoder` takes the bytes of an event stream as the transport delivers them and gives out the
frames that end in each push. The model keeps every field of the source and goes through the bytes
of a push the way `push_inner` does, with the frames of the push as an accumulator.

The only thing a push has of its own is that accumulator: it bounds how many frames one push may
give out. `SseDecoder.pushInner_eq_ok` takes it apart. A push is the decoder fed one byte at a time,
and the bound is a bound on what that gives out in total. Everything about how a stream is cut
follows from it.
-/

set_option autoImplicit false

namespace Wokcore.Protocols.Stream

open Lib List

/-! ## The decoder -/

/-- The variants of `ProtocolError` the decoder returns. -/
inductive ProtocolError where
  | frameTooLarge (limit : Nat)
  | tooManyFrames (limit : Nat)
  | invalidUtf8
  | decoderFailed
  | unexpectedEof
deriving DecidableEq, Repr

def defaultMaxSseFrameBytes : Nat := 1024 * 1024

def defaultMaxSseFramesPerPush : Nat := 4096

structure SseFrame where
  event : Option String
  data : String
deriving DecidableEq, Repr

structure SseDecoder where
  maxFrameBytes : Nat
  maxFramesPerPush : Nat
  frameBytes : Nat
  line : Bytes
  event : Option String
  data : String
  sawData : Bool
  atStreamStart : Bool
  failed : Bool
  skipLf : Bool
  countSkippedLf : Bool
deriving DecidableEq

/-- A line cut at its first colon; one space after the colon is dropped. -/
def splitField (text : List Char) : List Char × List Char :=
  match text.dropWhile (· != ':') with
  | [] => (text, [])
  | _ :: value =>
    (text.takeWhile (· != ':'), if value.head? = some ' ' then value.tail else value)

def byteOrderMark : Bytes := [0xef, 0xbb, 0xbf]

def carriageReturn : UInt8 := 0x0d

def lineFeed : UInt8 := 0x0a

/-- A decoder that has read on, with the frames it has found. -/
abbrev SseReading := Except ProtocolError (SseDecoder × List SseFrame)

namespace SseDecoder

def withLimits (maxFrameBytes maxFramesPerPush : Nat) : SseDecoder where
  maxFrameBytes := maxFrameBytes
  maxFramesPerPush := maxFramesPerPush
  frameBytes := 0
  line := []
  event := none
  data := ""
  sawData := false
  atStreamStart := true
  failed := false
  skipLf := false
  countSkippedLf := false

def new (maxFrameBytes : Nat) : SseDecoder := withLimits maxFrameBytes defaultMaxSseFramesPerPush

/-- `SseDecoder::add_frame_bytes`. -/
def addFrameBytes (d : SseDecoder) (added : Nat) : Except ProtocolError SseDecoder :=
  let d := { d with frameBytes := satAdd u64Max d.frameBytes added }
  if d.frameBytes > d.maxFrameBytes then .error (.frameTooLarge d.maxFrameBytes) else .ok d

/-- A blank line: the frame, if it has data, is given out. -/
def endFrame (d : SseDecoder) (frames : List SseFrame) : SseReading :=
  let next := { d with event := none, data := "", sawData := false, frameBytes := 0 }
  if d.sawData then
    if frames.length ≥ d.maxFramesPerPush then .error (.tooManyFrames d.maxFramesPerPush)
    else .ok (next, frames ++ [⟨d.event, d.data⟩])
  else .ok (next, frames)

/-- A line with a field on it. -/
def takeField (d : SseDecoder) (text : List Char) : SseDecoder :=
  let (field, value) := splitField text
  if field = "event".toList then { d with event := some (.ofList value) }
  else if field = "data".toList then
    { d with
      data := (if d.sawData then d.data ++ "\n" else d.data) ++ .ofList value, sawData := true }
  else d

/-- The part of `SseDecoder::process_line` after the line is read as text. -/
def processText (d : SseDecoder) (frames : List SseFrame) (text : List Char) : SseReading :=
  if text.isEmpty then d.endFrame frames
  else if text.head? = some ':' then .ok (d, frames)
  else .ok (d.takeField text, frames)

/-- The finished line; the first one of a stream loses its byte order mark. -/
def finishedLine (d : SseDecoder) : Bytes :=
  if d.atStreamStart && byteOrderMark.isPrefixOf d.line then d.line.drop byteOrderMark.length
    else d.line

/-- `SseDecoder::process_line`. -/
def processLine (d : SseDecoder) (frames : List SseFrame) : SseReading :=
  match decodeUtf8 d.finishedLine with
  | none => .error .invalidUtf8
  | some text => { d with line := [], atStreamStart := false }.processText frames text

/-- A byte that is not the line feed of a pair whose carriage return has already ended the line. -/
def takeByte (d : SseDecoder) (frames : List SseFrame) (byte : UInt8) : SseReading :=
  if byte = carriageReturn then
    let lineHasBytes := !d.line.isEmpty
    (if lineHasBytes then d.addFrameBytes 1 else .ok d).bind fun d =>
      (d.processLine frames).map fun r =>
        ({ r.1 with skipLf := true, countSkippedLf := lineHasBytes }, r.2)
  else if byte = lineFeed then
    (if !d.line.isEmpty then d.addFrameBytes 1 else .ok d).bind fun d => d.processLine frames
  else (d.addFrameBytes 1).map fun d => ({ d with line := d.line ++ [byte] }, frames)

/-- The body of the loop of `SseDecoder::push_inner`. -/
def pushByte (r : SseDecoder × List SseFrame) (byte : UInt8) : SseReading :=
  let (d, frames) := r
  if d.skipLf && byte == lineFeed then
    -- the second half of a pair counts only if its line had bytes
    let d := { d with skipLf := false }
    (if d.countSkippedLf then d.addFrameBytes 1 else .ok d).map fun d =>
      ({ d with countSkippedLf := false }, frames)
  else
    ({ d with skipLf := false, countSkippedLf := !d.skipLf && d.countSkippedLf }).takeByte
      frames byte

/-- `SseDecoder::push_inner`. -/
def pushInner (d : SseDecoder) (chunk : Bytes) : SseReading :=
  chunk.foldlM pushByte (d, [])

/-- `SseDecoder::push`. Once `failed` is set no call reads another field, so the fields a failing
    push has already changed are not followed. -/
def push (d : SseDecoder) (chunk : Bytes) : SseDecoder × Except ProtocolError (List SseFrame) :=
  if d.failed then (d, .error .decoderFailed)
  else
    match d.pushInner chunk with
    | .ok (d', frames) => (d', .ok frames)
    | .error e => ({ d with failed := true }, .error e)

/-- Nothing of an unfinished frame is held. -/
def atRest (d : SseDecoder) : Bool :=
  d.line.isEmpty && d.event.isNone && d.data.isEmpty && !d.sawData && d.frameBytes == 0

/-- `SseDecoder::finish`. -/
def finish (d : SseDecoder) : SseDecoder × Except ProtocolError (List SseFrame) :=
  if d.failed then (d, .error .decoderFailed)
  else ({ d with failed := true }, if d.atRest then .ok [] else .error .unexpectedEof)

/-- Pushes one after another, up to the first that fails, with the frames of all of them. -/
def pushAll (d : SseDecoder) : List Bytes → SseDecoder × Except ProtocolError (List SseFrame)
  | [] => (d, .ok [])
  | chunk :: chunks =>
    match d.push chunk with
    | (d, .error e) => (d, .error e)
    | (d, .ok frames) =>
      let rest := d.pushAll chunks
      (rest.1, rest.2.map (frames ++ ·))

end SseDecoder

/-! ## One byte

What a byte does to the frames of a push is one of three things: it fails, it leaves them alone, or
it appends one frame if there is room. Neither which of them nor the new frame depends on the frames
that are already there.
-/

/-- A step that treats the frames of a push as something to append to, at most `limit` in all. -/
def Appends (limit : Nat) (f : List SseFrame → SseReading) : Prop :=
  (∃ e, ∀ frames, f frames = .error e) ∨
  (∃ d, ∀ frames, f frames = .ok (d, frames)) ∨
  ∃ d frame, ∀ frames, f frames =
    if frames.length ≥ limit then .error (.tooManyFrames limit) else .ok (d, frames ++ [frame])

namespace Appends

variable {limit : Nat} {f : List SseFrame → SseReading}

theorem silent (d : SseDecoder) : Appends limit fun frames => .ok (d, frames) :=
    .inr (.inl ⟨d, fun _ => rfl⟩)

theorem fails (e : ProtocolError) : Appends limit fun _ => .error e := .inl ⟨e, fun _ => rfl⟩

theorem map (g : SseDecoder → SseDecoder) (h : Appends limit f) :
    Appends limit fun frames => (f frames).map fun r => (g r.1, r.2) := by
  rcases h with ⟨e, h⟩ | ⟨d, h⟩ | ⟨d, frame, h⟩
  · exact .inl ⟨e, fun frames => by simp only [h]; rfl⟩
  · exact .inr (.inl ⟨g d, fun frames => by simp only [h]; rfl⟩)
  · refine .inr (.inr ⟨g d, frame, fun frames => ?_⟩)
    simp only [h]
    split <;> rfl

end Appends

/-- The limits never change, and only `finish` and a failing push set `failed`. -/
structure SameLimits (d d' : SseDecoder) : Prop where
  maxFrameBytes : d'.maxFrameBytes = d.maxFrameBytes
  maxFramesPerPush : d'.maxFramesPerPush = d.maxFramesPerPush
  failed : d'.failed = d.failed

/-- The bytes a decoder retains: the unfinished line, the event name and the data. -/
def SseDecoder.retained (d : SseDecoder) : Nat :=
  d.line.length + d.event.elim 0 String.utf8ByteSize + d.data.utf8ByteSize

/-- What is retained has been counted; the counter stops at the largest word. -/
def SseDecoder.Counted (d : SseDecoder) : Prop :=
  min d.retained u64Max ≤ d.frameBytes ∧ d.frameBytes ≤ d.maxFrameBytes

/-- What a step keeps. -/
structure Kept (d d' : SseDecoder) : Prop extends SameLimits d d' where
  counted : d.Counted → d'.Counted

theorem Kept.trans {d d' e : SseDecoder} (h₁ : Kept d d') (h₂ : Kept d' e) : Kept d e where
  maxFrameBytes := h₂.maxFrameBytes.trans h₁.maxFrameBytes
  maxFramesPerPush := h₂.maxFramesPerPush.trans h₁.maxFramesPerPush
  failed := h₂.failed.trans h₁.failed
  counted := h₂.counted ∘ h₁.counted

/-- A step of a decoder: it appends, and it keeps what a step keeps. -/
structure Reads (d : SseDecoder) (f : List SseFrame → SseReading) : Prop where
  appends : Appends d.maxFramesPerPush f
  kept : ∀ {frames d' out}, f frames = .ok (d', out) → Kept d d'

namespace Reads

variable {d d' : SseDecoder} {f : List SseFrame → SseReading}

theorem fails (e : ProtocolError) : Reads d fun _ => .error e := ⟨.fails e, nofun⟩

theorem silent (h : Kept d d') : Reads d fun frames => .ok (d', frames) where
  appends := .silent d'
  kept heq := by
    cases heq
    exact h

theorem map {g : SseDecoder → SseDecoder} (hg : ∀ e, Kept e (g e)) (h : Reads d f) :
    Reads d fun frames => (f frames).map fun r => (g r.1, r.2) where
  appends := h.appends.map g
  kept {frames _ _} heq := by
    cases hf : f frames with
    | error e => rw [hf] at heq; cases heq
    | ok r =>
      rw [hf] at heq
      cases heq
      exact (h.kept hf).trans (hg _)

theorem of_kept (h : Kept d d') (hf : Reads d' f) : Reads d f :=
  ⟨h.maxFramesPerPush ▸ hf.appends, fun heq => h.trans (hf.kept heq)⟩

theorem bind {x : Except ProtocolError SseDecoder} {f : SseDecoder → List SseFrame → SseReading}
    (h : ∀ e, x = .ok e → Kept d e ∧ Reads e (f e)) :
    Reads d fun frames => x.bind fun e => f e frames := by
  cases x with
  | error e => exact fails e
  | ok e =>
    obtain ⟨hkept, hreads⟩ := h e rfl
    exact .of_kept hkept hreads

end Reads

/-- The name of a field and its value are no longer than the line. -/
theorem splitField_size (text : List Char) :
    String.utf8Len (splitField text).1 + String.utf8Len (splitField text).2 ≤
      String.utf8Len text := by
  unfold splitField
  split
  · exact Nat.le_refl _
  · next c value hrest =>
    have htext : String.utf8Len text =
        String.utf8Len (text.takeWhile (· != ':')) + String.utf8Len (c :: value) := by
      rw [← hrest, ← String.utf8Len_append, takeWhile_append_dropWhile]
    have hvalue : String.utf8Len value.tail ≤ String.utf8Len value := by cases value <;> simp
    rw [htext, String.utf8Len_cons]
    dsimp only
    split <;> omega

namespace SseDecoder

variable {d d' : SseDecoder} {frames out : List SseFrame} {chunk bytes : Bytes}
  {chunks : List Bytes} {added : Nat} {byte : UInt8} {new : List SseFrame}

theorem kept_flags (skipLf countSkippedLf : Bool) : Kept d { d with skipLf, countSkippedLf } :=
  ⟨⟨rfl, rfl, rfl⟩, id⟩

theorem addFrameBytes_eq_ok (h : d.addFrameBytes added = .ok d') :
    d' = { d with frameBytes := satAdd u64Max d.frameBytes added } ∧
    d'.frameBytes ≤ d'.maxFrameBytes := by
  unfold addFrameBytes at h
  dsimp only at h
  split at h
  · cases h
  · next hroom =>
    cases h
    exact ⟨rfl, Nat.le_of_not_lt hroom⟩

/-- A byte that is counted pays for one byte more on the line. -/
theorem kept_addFrameBytes (h : d.addFrameBytes 1 = .ok d') {line : Bytes}
    (hline : line.length ≤ d.line.length + 1) :
    Kept d { d' with line } := by
  obtain ⟨rfl, hroom⟩ := addFrameBytes_eq_ok h
  refine ⟨⟨rfl, rfl, rfl⟩, fun hd => ⟨?_, hroom⟩⟩
  have hcounted := hd.1
  simp only [retained, satAdd] at hcounted ⊢
  omega

theorem kept_addFrameBytes_if {c : Bool} (h : (if c then d.addFrameBytes 1 else .ok d) = .ok d') :
    Kept d d' := by
  split at h
  · obtain ⟨rfl, -⟩ := addFrameBytes_eq_ok h
    exact kept_addFrameBytes h (Nat.le_succ _)
  · cases h
    exact ⟨⟨rfl, rfl, rfl⟩, id⟩

section

variable (d : SseDecoder)

/-- The event name is overwritten. Data may grow by a line break too, which the name of its field
    outweighs. -/
theorem takeField_eq (text : List Char) : ∃ event data sawData,
    d.takeField text = { d with event, data, sawData } ∧ (d.takeField text).retained ≤ d.retained +
    String.utf8Len text := by
  have hsize := splitField_size text
  unfold takeField
  split
  next field value hsplit =>
  rw [hsplit] at hsize
  dsimp only at hsize
  split
  · refine ⟨_, _, _, rfl, ?_⟩
    simp only [retained, Option.elim, String.utf8ByteSize_ofList]
    omega
  · split
    · next hfield =>
      refine ⟨_, _, _, rfl, ?_⟩
      have hname : String.utf8Len field = 4 := by rw [hfield]; rfl
      have hbreak : (if d.sawData then d.data ++ "\n" else d.data).utf8ByteSize ≤
          d.data.utf8ByteSize + 1 := by
        split
        · exact String.utf8ByteSize_append.le
        · exact Nat.le_succ _
      simp only [retained, String.utf8ByteSize_append, String.utf8ByteSize_ofList]
      omega
    · exact ⟨_, _, _, rfl, Nat.le_add_right _ _⟩

theorem appends_processText (text : List Char) :
    Appends d.maxFramesPerPush fun frames => d.processText frames text := by
  unfold processText
  by_cases h₁ : text.isEmpty = true
  · simp only [h₁, if_true, endFrame]
    cases d.sawData with
    | false => exact .silent _
    | true => exact .inr (.inr ⟨_, _, fun _ => rfl⟩)
  · by_cases h₂ : text.head? = some ':'
    · simp only [h₁, h₂, if_true, Bool.false_eq_true, if_false]
      exact .silent _
    · simp only [h₁, h₂, Bool.false_eq_true, if_false]
      exact .silent _

theorem appends_processLine : Appends d.maxFramesPerPush fun frames => d.processLine frames := by
  unfold processLine
  cases decodeUtf8 d.finishedLine with
  | none => exact .fails _
  | some text => exact appends_processText { d with line := [], atStreamStart := false } text

end

theorem kept_processLine (h : d.processLine frames = .ok (d', out)) :
    Kept d d' ∧ d'.line = [] ∧ d'.atStreamStart = false := by
  unfold processLine processText endFrame at h
  split at h
  · cases h
  · next text htext =>
    split at h
    · split at h
      · split at h
        · cases h
        · cases h
          exact ⟨⟨⟨rfl, rfl, rfl⟩, fun _ => ⟨Nat.min_le_left 0 _, Nat.zero_le _⟩⟩, rfl, rfl⟩
      · cases h
        exact ⟨⟨⟨rfl, rfl, rfl⟩, fun _ => ⟨Nat.min_le_left 0 _, Nat.zero_le _⟩⟩, rfl, rfl⟩
    · split at h
      · cases h
        refine ⟨⟨⟨rfl, rfl, rfl⟩, fun hd => ⟨?_, hd.2⟩⟩, rfl, rfl⟩
        have hcounted := hd.1
        simp only [retained, length_nil] at hcounted ⊢
        omega
      · cases h
        obtain ⟨event, data, sawData, htaken, hle⟩ :=
          takeField_eq { d with line := [], atStreamStart := false } text
        rw [htaken] at hle ⊢
        refine ⟨⟨⟨rfl, rfl, rfl⟩, fun hd => ⟨?_, hd.2⟩⟩, rfl, rfl⟩
        have hline : String.utf8Len text ≤ d.line.length := by
          rw [← length_encodeUtf8, ← eq_encodeUtf8 htext, finishedLine]
          split <;> simp
        have hcounted := hd.1
        simp only [retained, length_nil] at hcounted hle ⊢
        omega

section

variable (d : SseDecoder)

theorem reads_processLine : Reads d fun frames => d.processLine frames :=
  ⟨appends_processLine d, fun h => (kept_processLine h).1⟩

theorem reads_takeByte (byte : UInt8) : Reads d fun frames => d.takeByte frames byte := by
  unfold takeByte
  split
  · refine .bind fun e he => ⟨kept_addFrameBytes_if he, ?_⟩
    exact .map (fun _ => kept_flags true (!d.line.isEmpty)) (reads_processLine e)
  · split
    · exact .bind fun e he => ⟨kept_addFrameBytes_if he, reads_processLine e⟩
    · cases ha : d.addFrameBytes 1 with
      | error e => exact .fails e
      | ok e =>
        obtain ⟨rfl, -⟩ := addFrameBytes_eq_ok ha
        exact .silent (kept_addFrameBytes ha (by simp))

theorem reads_pushByte (byte : UInt8) : Reads d fun frames => pushByte (d, frames) byte := by
  unfold pushByte
  by_cases h : (d.skipLf && byte == lineFeed) = true
  · simp only [h, if_true]
    split
    · cases ha : addFrameBytes { d with skipLf := false } 1 with
      | error e => exact .fails e
      | ok e =>
        have hcounted := kept_addFrameBytes_if (c := true) ha
        exact .silent (((kept_flags _ _).trans hcounted).trans (kept_flags _ _))
    · exact .silent (kept_flags _ _)
  · simp only [h, Bool.false_eq_true, if_false]
    exact .of_kept (kept_flags _ _) (reads_takeByte _ byte)

theorem pushByte_cases (byte : UInt8) :
    (∃ e, ∀ frames, pushByte (d, frames) byte = .error e) ∨
    (∃ d', ∀ frames, pushByte (d, frames) byte = .ok (d', frames)) ∨
    ∃ d' frame, ∀ frames, pushByte (d, frames) byte =
      if frames.length ≥ d.maxFramesPerPush then .error (.tooManyFrames d.maxFramesPerPush)
      else .ok (d', frames ++ [frame]) :=
  (reads_pushByte d byte).appends

end

theorem kept_pushByte (h : pushByte (d, frames) byte = .ok (d', out)) : Kept d d' :=
    (reads_pushByte d byte).kept h

/-! ## One push -/

/-- A push of a single byte. -/
def byteStep (d : SseDecoder) (byte : UInt8) : SseReading :=
  pushByte (d, []) byte

theorem kept_feed (h : feed byteStep d bytes = .ok (d', out)) : Kept d d' :=
  feed_invariant (fun _ _ _ _ hs hstep => hs.trans (kept_pushByte hstep)) ⟨⟨rfl, rfl, rfl⟩, id⟩ h

theorem appending_pushByte : Appending pushByte := by
  intro d byte frames more d' out h
  dsimp only at h ⊢
  rcases pushByte_cases d byte with ⟨e, hf⟩ | ⟨e, hf⟩ | ⟨e, frame, hf⟩
  · rw [hf] at h
    cases h
  · rw [hf] at h
    cases h
    exact ⟨[], (append_nil _).symm, by rw [hf, append_nil]⟩
  · rw [hf] at h
    split at h
    · cases h
    · next hroom =>
      cases h
      refine ⟨[frame], rfl, (hf more).trans (if_neg fun hfull => hroom ?_)⟩
      rw [length_append]
      omega

/-- What the decoder does byte by byte is what a push does, as long as the frames are not too
    many. -/
theorem foldlM_of_feed (hroom : frames.length ≤ d.maxFramesPerPush)
    (h : feed byteStep d bytes = .ok (d', new)) :
    bytes.foldlM pushByte (d, frames) =
      if (frames ++ new).length ≤ d.maxFramesPerPush then .ok (d', frames ++ new)
      else .error (.tooManyFrames d.maxFramesPerPush) := by
  induction bytes generalizing d frames new with
  | nil =>
    cases h
    rw [append_nil, if_pos hroom]
    rfl
  | cons b bytes ih =>
    obtain ⟨e, one, rest, hb, hrest, rfl⟩ := feed_cons_eq_ok.mp h
    have hlimit : e.maxFramesPerPush = d.maxFramesPerPush := (kept_pushByte hb).maxFramesPerPush
    rw [foldlM_cons]
    rcases pushByte_cases d b with ⟨x, hf⟩ | ⟨e', hf⟩ | ⟨e', frame, hf⟩
    · rw [byteStep, hf []] at hb
      cases hb
    · rw [byteStep, hf []] at hb
      cases hb
      rw [hf frames]
      show bytes.foldlM pushByte (e, frames) = _
      rw [ih (hlimit ▸ hroom) hrest, hlimit]
      rfl
    · rw [byteStep, hf []] at hb
      split at hb
      · cases hb
      · cases hb
        rw [hf frames]
        by_cases hfull : frames.length ≥ d.maxFramesPerPush
        · rw [if_pos hfull, if_neg]
          · rfl
          · simp only [length_append, length_cons, length_nil]
            omega
        · rw [if_neg hfull]
          show bytes.foldlM pushByte (e, frames ++ [frame]) = _
          have hmore : (frames ++ [frame]).length ≤ e.maxFramesPerPush := by
            rw [hlimit, length_append, length_singleton]
            omega
          rw [ih hmore hrest, hlimit, append_assoc]
          rfl

theorem pushInner_of_feed (h : feed byteStep d chunk = .ok (d', new)) : d.pushInner chunk =
      if new.length ≤ d.maxFramesPerPush then .ok (d', new)
      else .error (.tooManyFrames d.maxFramesPerPush) := by
  have hnone : ([] : List SseFrame).length ≤ d.maxFramesPerPush := Nat.zero_le _
  exact foldlM_of_feed hnone h

/-- **A push, byte by byte.** A push gives what the decoder gives byte by byte, and the frame limit
    of a push is a bound on their number. -/
theorem pushInner_eq_ok :
    d.pushInner chunk = .ok (d', out) ↔
      feed byteStep d chunk = .ok (d', out) ∧ out.length ≤ d.maxFramesPerPush := by
  constructor
  · intro h
    obtain ⟨new, rfl, hnew⟩ := feed_of_foldlM appending_pushByte h
    refine ⟨hnew, ?_⟩
    rw [pushInner_of_feed hnew] at h
    by_contra hlong
    rw [if_neg hlong] at h
    cases h
  · rintro ⟨hnew, hlen⟩
    rw [pushInner_of_feed hnew]
    exact if_pos hlen

theorem push_eq_ok (hd : d.failed = false) :
    d.push chunk = (d', .ok out) ↔ d.pushInner chunk = .ok (d', out) := by
  unfold push
  rw [if_neg (by simp [hd])]
  cases h : d.pushInner chunk with
  | error e => simp
  | ok r => simp [Prod.ext_iff]

/-! ## Any number of pushes -/

theorem pushAll_cons_eq_ok :
    d.pushAll (chunk :: chunks) = (d', .ok out) ↔
      ∃ e o p, d.push chunk = (e, .ok o) ∧ e.pushAll chunks = (d', .ok p) ∧ out = o ++ p := by
  rw [pushAll]
  cases hp : d.push chunk with
  | mk e r =>
    cases r with
    | error x => simp
    | ok o =>
      cases hq : e.pushAll chunks with
      | mk e' r' =>
        cases r' with
        | error x => simp [Except.map, hq]
        | ok p => simp [Except.map, hq, Prod.ext_iff, eq_comm]

/-- **Any number of pushes, byte by byte.** -/
theorem feed_of_pushAll (hd : d.failed = false) (h : d.pushAll chunks = (d', .ok out)) :
    feed byteStep d chunks.flatten = .ok (d', out) := by
  induction chunks generalizing d out with
  | nil =>
    cases h
    rfl
  | cons chunk chunks ih =>
    obtain ⟨e, o, p, hp, hrest, rfl⟩ := pushAll_cons_eq_ok.mp h
    have hfeed := (pushInner_eq_ok.mp ((push_eq_ok hd).mp hp)).1
    have he : e.failed = false := (kept_feed hfeed).failed.trans hd
    exact feed_append.mpr ⟨e, o, p, hfeed, ih he hrest, rfl⟩

/-- Pushes in which no chunk completes too many frames succeed if the decoder does byte by byte. -/
theorem pushAll_of_feed (hd : d.failed = false) (h : feed byteStep d chunks.flatten = .ok (d', out))
    (hfew : ∀ before chunk after, chunks = before ++ chunk :: after → ∀ e o f p,
      feed byteStep d before.flatten = .ok (e, o) → feed byteStep e chunk = .ok (f, p) →
      p.length ≤ d.maxFramesPerPush) :
    d.pushAll chunks = (d', .ok out) := by
  induction chunks generalizing d out with
  | nil =>
    cases h
    rfl
  | cons chunk chunks ih =>
    obtain ⟨e, o, p, hc, hrest, rfl⟩ := feed_append.mp h
    have hsame := kept_feed hc
    have hlen := hfew [] chunk chunks rfl d [] e o rfl hc
    refine pushAll_cons_eq_ok.mpr
      ⟨e, o, p, (push_eq_ok hd).mpr (pushInner_eq_ok.mpr ⟨hc, hlen⟩), ?_, rfl⟩
    refine ih (hsame.failed.trans hd) hrest ?_
    intro before c after hcut e' o' f p' hb hp
    rw [hsame.maxFramesPerPush]
    exact hfew (chunk :: before) c after (by rw [hcut]; rfl) e' (o ++ o') f p'
      (feed_append.mpr ⟨e, o, o', hc, hb, rfl⟩) hp

/-- **Chunk independence.** A single push that succeeds can be cut into any chunks without a
    difference to the frames, the decoder or what `finish` says. A run in chunks that succeeds
    leaves a single push one way to fail: it may be too many frames at once. -/
theorem pushAll_chunks (maxFrameBytes maxFramesPerPush : Nat) (chunks : List Bytes) :
    let fresh := withLimits maxFrameBytes maxFramesPerPush
    (∀ d frames, fresh.push chunks.flatten = (d, .ok frames) →
      fresh.pushAll chunks = (d, .ok frames) ∧
        (fresh.pushAll chunks).1.finish = (fresh.push chunks.flatten).1.finish) ∧
    ∀ d frames, fresh.pushAll chunks = (d, .ok frames) →
      fresh.push chunks.flatten = (d, .ok frames) ∨
        (fresh.push chunks.flatten).2 = .error (.tooManyFrames maxFramesPerPush) := by
  intro fresh
  have hfresh : fresh.failed = false := rfl
  constructor
  · intro d frames h
    obtain ⟨hfeed, hlen⟩ := pushInner_eq_ok.mp ((push_eq_ok hfresh).mp h)
    have hall : fresh.pushAll chunks = (d, .ok frames) := by
      refine pushAll_of_feed hfresh hfeed ?_
      -- what one chunk gives out is part of what all of them give out
      rintro before chunk after rfl e o f p hb hp
      rw [flatten_append, flatten_cons] at hfeed
      obtain ⟨e', o', q, hb', hrest, rfl⟩ := feed_append.mp hfeed
      obtain ⟨f', p', q', hp', -, rfl⟩ := feed_append.mp hrest
      rw [hb] at hb'
      cases hb'
      rw [hp] at hp'
      cases hp'
      simp only [length_append] at hlen
      exact Nat.le_trans (by omega) hlen
    exact ⟨hall, by rw [hall, h]⟩
  · intro d frames h
    have hfeed := feed_of_pushAll hfresh h
    by_cases hlen : frames.length ≤ fresh.maxFramesPerPush
    · exact .inl ((push_eq_ok hfresh).mpr (pushInner_eq_ok.mpr ⟨hfeed, hlen⟩))
    · right
      rw [push, if_neg (by simp [hfresh]), pushInner_of_feed hfeed, if_neg hlen]
      rfl

/-- The decoder at work: a byte order mark, a two-byte character and a pair of line ends, all of
    them cut in half, with an empty chunk in between. -/
theorem pushAll_chunks_cut :
    let chunks : List Bytes := [[0xef], [0xbb, 0xbf, 0x64, 0x61, 0x74], [],
      [0x61, 0x3a, 0x20, 0xc3], [0xa9, 0x0d], [0x0a, 0x0d], [0x0a]]
    ((withLimits 64 1).pushAll chunks).2 = .ok [⟨none, "é"⟩] ∧
      ((withLimits 64 1).push chunks.flatten).2 = .ok [⟨none, "é"⟩] ∧
      ((withLimits 64 1).pushAll chunks).1.finish =
        ((withLimits 64 1).push chunks.flatten).1.finish := by
  intro chunks
  have hwhole : (withLimits 64 1).push chunks.flatten =
      (((withLimits 64 1).push chunks.flatten).1, .ok [⟨none, "é"⟩]) := by decide +kernel
  obtain ⟨hall, hfinish⟩ := (pushAll_chunks 64 1 chunks).1 _ _ hwhole
  exact ⟨congrArg Prod.snd hall, congrArg Prod.snd hwhole, hfinish⟩

/-! ## What is retained -/

/-- A call of a decoder: the bytes of a push, or `none` for `finish`. -/
def call (d : SseDecoder) (c : Option Bytes) : SseDecoder × Except ProtocolError (List SseFrame) :=
  c.elim d.finish d.push

def callAll (d : SseDecoder) (calls : List (Option Bytes)) : SseDecoder :=
    calls.foldl (fun d c => (d.call c).1) d

theorem callAll_invariant {P : SseDecoder → Prop} (hcall : ∀ d c, P d → P (d.call c).1) (hd : P d)
    (calls : List (Option Bytes)) : P (d.callAll calls) := by
  induction calls generalizing d with
  | nil => exact hd
  | cons c calls ih => exact ih (hcall d c hd)

theorem call_of_failed (hd : d.failed = true) (c : Option Bytes) :
    d.call c = (d, .error .decoderFailed) := by
  cases c <;> exact if_pos hd

theorem call_cases (d : SseDecoder) (c : Option Bytes) :
    (d.call c).1.failed = true ∨ Kept d (d.call c).1 ∧ c ≠ none ∧ ∃ frames,
    (d.call c).2 = .ok frames := by
  cases hd : d.failed with
  | true =>
    rw [call_of_failed hd]
    exact .inl hd
  | false =>
    cases c with
    | none => simp [call, finish, hd]
    | some chunk =>
      cases h : d.pushInner chunk with
      | error e => simp [call, push, hd, h]
      | ok r => simp [call, push, hd, h, kept_feed (pushInner_eq_ok.mp h).1]

/-- **Retained bytes are counted.** After any calls, a decoder that has not failed retains no more
    than its counter says, and the counter is within the limit of a frame. A call that fails, and
    `finish`, is the last one that is answered. -/
theorem retained_le_frameBytes (maxFrameBytes maxFramesPerPush : Nat)
    (calls : List (Option Bytes)) :
    let d := (withLimits maxFrameBytes maxFramesPerPush).callAll calls
    (d.failed = false → (d.retained ≤ u64Max → d.retained ≤ d.frameBytes) ∧
      d.frameBytes ≤ d.maxFrameBytes ∧ d.maxFrameBytes = maxFrameBytes ∧
      (maxFrameBytes < u64Max → d.retained ≤ maxFrameBytes)) ∧
    ∀ c more next, c = none ∨ (∃ e, (d.call c).2 = .error e) →
      (((d.call c).1.callAll more).call next).2 = .error .decoderFailed := by
  intro d
  have hd : d.failed = true ∨ d.Counted ∧ d.maxFrameBytes = maxFrameBytes := by
    refine callAll_invariant (P := fun e => e.failed = true ∨ e.Counted ∧
      e.maxFrameBytes = maxFrameBytes) (fun e c he => ?_)
      (.inr ⟨⟨Nat.min_le_left 0 _, Nat.zero_le _⟩, rfl⟩) calls
    obtain hfailed | ⟨hkept, -⟩ := call_cases e c
    · exact .inl hfailed
    · exact he.imp hkept.failed.trans fun h => ⟨hkept.counted h.1, hkept.maxFrameBytes.trans h.2⟩
  constructor
  · intro hok
    obtain hfailed | ⟨⟨hretained, hwithin⟩, hmax⟩ := hd
    · rw [hok] at hfailed
      cases hfailed
    · omega
  · intro c more next hc
    have hfailed : (d.call c).1.failed = true := by
      obtain hfailed | ⟨-, hpush, frames, hframes⟩ := call_cases d c
      · exact hfailed
      · simp [hpush, hframes] at hc
    have hlater : ((d.call c).1.callAll more).failed = true := by
      refine callAll_invariant (P := (·.failed = true)) (fun e c he => ?_) hfailed more
      rw [call_of_failed he]
      exact he
    rw [call_of_failed hlater]

end SseDecoder

end Wokcore.Protocols.Stream
