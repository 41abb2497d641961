import Mathlib.Data.List.Chain
import Wokcore.Protocols.Stream.Sse

/-!
# Line ends

A line of an event stream ends in a line feed, a carriage return, or a carriage return and a line
feed. Which of them it is must not matter. `readLines` reads lines that have no terminator at all,
and a push of the lines with any terminators is that reading, up to the two flags and the count of
bytes that the decoder keeps (`push_joined`). The flags say nothing once the text is over; the count
does, as `finish` asks if it is zero. It is the same for all terminators but after one text, a byte
order mark on a line of its own: the blank line sets the count to zero, and the line feed of a pair
is counted after that.
-/

set_option autoImplicit false

namespace Wokcore.Protocols.Stream

open Lib List
open Prod (fst)

inductive Terminator
  | lf | cr | crlf
deriving DecidableEq, Repr

def Terminator.bytes : Terminator → Bytes
  | .lf => [lineFeed]
  | .cr => [carriageReturn]
  | .crlf => [carriageReturn, lineFeed]

/-- Lines with their terminators. -/
abbrev Lines := List (Bytes × Terminator)

/-- The text of the lines, and what stands after the last of them. -/
def joined (lines : Lines) (last : Bytes) : Bytes :=
  (lines.flatMap fun line => line.1 ++ line.2.bytes) ++ last

/-- The bytes of a line. -/
def Unended (line : Bytes) : Prop := ∀ b ∈ line, b ≠ carriageReturn ∧ b ≠ lineFeed

/-- No carriage return stands before the line feed of an empty line, with which it would be a
    pair. -/
def Apart (lines : Lines) : Prop := lines.IsChain fun a b => a.2 = .cr → b ≠ ([], .lf)

instance (lines : Lines) : Decidable (Apart lines) := by
  unfold Apart
  infer_instance

theorem decodeUtf8_eq_nil {bytes : Bytes} : decodeUtf8 bytes = some [] ↔ bytes = [] := by
  constructor
  · exact eq_encodeUtf8
  · rintro rfl
    exact decodeUtf8_encodeUtf8 []

namespace SseDecoder

abbrev Reading := SseDecoder × List SseFrame

variable {d : SseDecoder} {frames : List SseFrame} {r r' : Reading} {line : Bytes} {n : Nat}
    {s k : Bool}

/-- The decoder without what it knows of terminators. -/
def blind (d : SseDecoder) : SseDecoder :=
    { d with frameBytes := 0, skipLf := false, countSkippedLf := false }

/-- What a decoder knows of terminators, put into another. -/
def retouch (n : Nat) (skipLf countSkippedLf : Bool) (r : Reading) : Reading :=
  ({ r.1 with frameBytes := n, skipLf, countSkippedLf }, r.2)

/-- A whole line. -/
def readLine (r : Reading) (line : Bytes) : Except ProtocolError Reading :=
  ({ r.1.blind with line } : SseDecoder).processLine r.2

/-- The run ends as the decoder has read too many bytes of a frame. -/
def TooLarge (x : Except ProtocolError Reading) : Prop := ∃ limit, x = .error (.frameTooLarge limit)

theorem takeField_retouch (d : SseDecoder) (text : List Char) (frameBytes : Nat)
    (skipLf countSkippedLf : Bool) :
    takeField { d with frameBytes, skipLf, countSkippedLf } text =
      { d.takeField text with frameBytes, skipLf, countSkippedLf } := by
  unfold takeField
  dsimp only
  by_cases hevent : (splitField text).1 = "event".toList
  · rw [if_pos hevent, if_pos hevent]
  · rw [if_neg hevent, if_neg hevent]
    by_cases hdata : (splitField text).1 = "data".toList
    · rw [if_pos hdata, if_pos hdata]
    · rw [if_neg hdata, if_neg hdata]

theorem processLine_eq (d : SseDecoder) (frames : List SseFrame) :
    d.processLine frames = (readLine (d, frames) d.line).map
      (retouch (if d.finishedLine = [] then 0 else d.frameBytes) d.skipLf d.countSkippedLf) := by
  unfold readLine processLine
  have hsame : finishedLine { d.blind with line := d.line } = d.finishedLine := rfl
  rw [hsame]
  cases htext : decodeUtf8 d.finishedLine with
  | none => rfl
  | some text =>
    have hnil : d.finishedLine = [] ↔ text = [] := by
      rw [← decodeUtf8_eq_nil, htext, Option.some.injEq]
    simp only [hnil, processText]
    cases text with
    | nil =>
      simp only [isEmpty_nil, if_true, endFrame, blind]
      by_cases hsaw : d.sawData = true <;> by_cases hfull : d.maxFramesPerPush ≤ frames.length <;>
        simp [hsaw, hfull, retouch, Except.map]
    | cons c text =>
      by_cases hcomment : c = ':'
      · simp [hcomment, retouch, Except.map, blind]
      · have hblind := takeField_retouch { d with line := [], atStreamStart := false }
          (c :: text) 0 false false
        have hself := takeField_retouch { d with line := [], atStreamStart := false }
          (c :: text) d.frameBytes d.skipLf d.countSkippedLf
        simp [hcomment, retouch, Except.map, blind, hblind]
        exact hself

theorem addFrameBytes_cases (d : SseDecoder) :
    (∃ limit, d.addFrameBytes 1 = .error (.frameTooLarge limit)) ∨
      ∃ n, 0 < n ∧ d.addFrameBytes 1 = .ok { d with frameBytes := n } := by
  unfold addFrameBytes
  dsimp only
  split
  · exact .inl ⟨_, rfl⟩
  · exact .inr ⟨_, satAdd_pos (by decide) Nat.one_pos, rfl⟩

/-- The decoder at a byte that is no line feed to skip. -/
abbrev unskipped (d : SseDecoder) : SseDecoder :=
  { d with skipLf := false, countSkippedLf := !d.skipLf && d.countSkippedLf }

theorem foldlM_unended (h : Unended line) :
    TooLarge (line.foldlM pushByte (d, frames)) ∨
      ∃ n s k, line.foldlM pushByte (d, frames) =
        .ok (retouch n s k ({ d with line := d.line ++ line }, frames)) ∧
        (n = 0 ↔ line = [] ∧ d.frameBytes = 0) ∧ (s = true → line = [] ∧ d.skipLf = true) := by
  induction line generalizing d with
  | nil =>
    exact .inr ⟨d.frameBytes, d.skipLf, d.countSkippedLf, by rw [append_nil]; rfl, by simp, by simp⟩
  | cons b line ih =>
    obtain ⟨hb, hline⟩ := forall_mem_cons.mp h
    have hpush : pushByte (d, frames) b =
        (d.unskipped.addFrameBytes 1).map fun d => ({ d with line := d.line ++ [b] }, frames) := by
      simp [pushByte, takeByte, hb]
    rw [foldlM_cons, hpush]
    rcases addFrameBytes_cases d.unskipped with ⟨limit, hlarge⟩ | ⟨n, hn, hroom⟩
    · rw [hlarge]
      exact .inl ⟨limit, rfl⟩
    · rw [hroom]
      refine (ih hline).imp id ?_
      rintro ⟨m, s, k, hrun, hm, hs⟩
      refine ⟨m, s, k, hrun.trans ?_, ?_, ?_⟩
      · rw [append_assoc]
        rfl
      · simp only [reduceCtorEq, false_and, iff_false]
        exact fun hzero => hn.ne' (hm.mp hzero).2
      · exact fun hskip => absurd (hs hskip).2 Bool.false_ne_true

theorem finishedLine_of_nil (h : d.line = []) : d.finishedLine = [] := by
  simp [finishedLine, h]

/-- What a line feed and a carriage return have in common. -/
def endLine (d : SseDecoder) (frames : List SseFrame) : Except ProtocolError Reading :=
  (if !d.line.isEmpty then d.addFrameBytes 1 else .ok d).bind fun d => d.processLine frames

theorem endLine_cases (d : SseDecoder) (frames : List SseFrame) :
    TooLarge (d.endLine frames) ∨
      ∃ n, d.endLine frames = (readLine (d, frames) d.line).map
        (retouch n d.skipLf d.countSkippedLf) ∧ (n = 0 ↔ d.finishedLine = []) := by
  unfold endLine
  by_cases hline : d.line = []
  · refine .inr ⟨0, ?_, iff_of_true rfl (finishedLine_of_nil hline)⟩
    rw [if_neg (by simp [hline])]
    show d.processLine frames = _
    rw [processLine_eq, if_pos (finishedLine_of_nil hline)]
  · rw [if_pos (by simpa using hline)]
    rcases addFrameBytes_cases d with ⟨limit, hlarge⟩ | ⟨n, hn, hroom⟩
    · rw [hlarge]
      exact .inl ⟨limit, rfl⟩
    · rw [hroom]
      refine .inr ⟨_, processLine_eq { d with frameBytes := n } frames, ?_⟩
      split
      · next hblank => exact iff_of_true rfl hblank
      · next hblank => exact iff_of_false hn.ne' hblank

theorem pushByte_carriageReturn (d : SseDecoder) (frames : List SseFrame) :
    TooLarge (pushByte (d, frames) carriageReturn) ∨
      ∃ n, pushByte (d, frames) carriageReturn =
          (readLine (d, frames) d.line).map (retouch n true (!d.line.isEmpty)) ∧
          (n = 0 ↔ d.finishedLine = []) := by
  have hpush : pushByte (d, frames) carriageReturn =
      (d.unskipped.endLine frames).map fun r =>
      ({ r.1 with skipLf := true, countSkippedLf := !d.line.isEmpty }, r.2) := by
    have hfeed : ¬(d.skipLf && carriageReturn == lineFeed) = true := by
      simp [carriageReturn, lineFeed]
    have hassoc : ∀ (x : Except ProtocolError SseDecoder)
        (f : SseDecoder → Except ProtocolError Reading) (g : Reading → Reading),
        (x.bind fun d => (f d).map g) = (x.bind f).map g := by
      intro x f g
      cases x <;> rfl
    rw [pushByte, if_neg hfeed, takeByte, if_pos rfl]
    exact hassoc _ _ _
  rw [hpush]
  rcases endLine_cases d.unskipped frames with ⟨limit, hlarge⟩ | ⟨n, hread, hn⟩
  · rw [hlarge]
    exact .inl ⟨limit, rfl⟩
  · refine .inr ⟨n, ?_, hn⟩
    rw [hread]
    show Except.map _ (Except.map _ (readLine (d, frames) d.line)) = _
    cases readLine (d, frames) d.line <;> rfl

/-- **The end of a line.** -/
theorem foldlM_terminator (t : Terminator) (hskip : t = .lf → d.skipLf = false) :
    TooLarge (t.bytes.foldlM pushByte (d, frames)) ∨
      ∃ n k, t.bytes.foldlM pushByte (d, frames) = (readLine (d, frames) d.line).map
        (retouch n (t == .cr) k) ∧ (n = 0 ↔ d.finishedLine = [] ∧ (d.line = [] ∨ t ≠ .crlf)) := by
  cases t with
  | lf =>
    have hpush : Terminator.lf.bytes.foldlM pushByte (d, frames) =
        endLine { d with skipLf := false, countSkippedLf := d.countSkippedLf } frames := by
      simp [Terminator.bytes, pushByte, hskip, takeByte, endLine, carriageReturn, lineFeed]
    rw [hpush]
    refine (endLine_cases _ frames).imp id ?_
    rintro ⟨n, hread, hn⟩
    change n = 0 ↔ d.finishedLine = [] at hn
    exact ⟨n, _, hread, by simpa using hn⟩
  | cr =>
    have hpush : Terminator.cr.bytes.foldlM pushByte (d, frames) = pushByte
        (d, frames) carriageReturn := by
      simp [Terminator.bytes]
    rw [hpush]
    refine (pushByte_carriageReturn d frames).imp id ?_
    rintro ⟨n, hread, hn⟩
    exact ⟨n, _, hread, by simpa using hn⟩
  | crlf =>
    have hpush : Terminator.crlf.bytes.foldlM pushByte (d, frames) =
        (pushByte (d, frames) carriageReturn).bind fun r => pushByte r lineFeed := by
      simp [Terminator.bytes]
      rfl
    rw [hpush]
    rcases pushByte_carriageReturn d frames with ⟨limit, hlarge⟩ | ⟨n, hread, hn⟩
    · rw [hlarge]
      exact .inl ⟨limit, rfl⟩
    · rw [hread]
      cases readLine (d, frames) d.line with
      | error e =>
        refine .inr ⟨if d.line = [] then n else 1, false, rfl, ?_⟩
        by_cases hline : d.line = [] <;> simp [hline, hn]
      | ok r =>
        by_cases hline : d.line = []
        · refine .inr ⟨n, false, ?_, by simpa [hline] using hn⟩
          simp [hline, retouch, Except.map, Except.bind, pushByte]
        · have hbytes : (!d.line.isEmpty) = true := by simpa using hline
          have hpush : pushByte (retouch n true true r) lineFeed =
              (addFrameBytes (retouch n false true r).1 1).map fun d =>
              ({ d with countSkippedLf := false }, r.2) := by
            simp [retouch, pushByte]
          rw [hbytes]
          show TooLarge (pushByte (retouch n true true r) lineFeed) ∨
            ∃ n' k, pushByte (retouch n true true r) lineFeed = _ ∧ _
          rw [hpush]
          rcases addFrameBytes_cases (retouch n false true r).1 with ⟨limit, hlarge⟩ | ⟨m,
            hm, hroom⟩
          · rw [hlarge]
            exact .inl ⟨limit, rfl⟩
          · rw [hroom]
            exact .inr ⟨m, false, rfl, by simp [hline, hm.ne']⟩

theorem of_readLine (h : readLine r line = .ok r') : r'.1.line = [] ∧ r'.1.atStreamStart = false :=
  (kept_processLine h).2

/-- Whether no byte is counted after the lines, by what holds before them. -/
def countsNothing (zero start : Bool) : Lines → Bool
  | [] => zero
  | (line, t) :: lines =>
    countsNothing (line.isEmpty || (start && line == byteOrderMark && t != .crlf)) false lines

/-- The lines with nothing said of their ends, and what stands after them. -/
def readLines (r : Reading) (lines : List Bytes) (last : Bytes) : Except ProtocolError Reading :=
  (lines.foldlM readLine r).map fun r => ({ r.1.blind with line := last }, r.2)

theorem readLines_retouch {lines : List Bytes} {last : Bytes} :
    readLines (retouch n s k r) lines last = readLines r lines last := by
  cases lines <;> rfl

theorem finishedLine_eq_nil :
    d.finishedLine = [] ↔ d.line = [] ∨ (d.atStreamStart = true ∧ d.line = byteOrderMark) := by
  unfold finishedLine
  split
  · next hmark =>
    obtain ⟨hstart, hmark⟩ := Bool.and_eq_true_iff.mp hmark
    obtain ⟨rest, hrest⟩ := isPrefixOf_iff_prefix.mp hmark
    rw [← hrest, drop_left]
    simp [hstart, byteOrderMark]
  · next hmark =>
    refine ⟨.inl, fun h => h.resolve_right ?_⟩
    rintro ⟨hstart, hline⟩
    rw [hstart, hline] at hmark
    exact hmark rfl

theorem foldlM_line {t : Terminator} (hline : Unended line) (hd : d.line = [])
    (hskip : d.skipLf = true → (line, t) ≠ ([], .lf)) :
    TooLarge ((line ++ t.bytes).foldlM pushByte (d, frames)) ∨
      ∃ n k, (line ++ t.bytes).foldlM pushByte (d, frames) =
          (readLine (d, frames) line).map (retouch n (t == .cr) k) ∧
        (n = 0 ↔ line = [] ∨ d.atStreamStart = true ∧ line = byteOrderMark ∧ t ≠ .crlf) := by
  rw [foldlM_append]
  rcases @foldlM_unended d frames line hline with ⟨limit, hlarge⟩ | ⟨n, s, k, hrun, -, hs⟩
  · rw [hlarge]
    exact .inl ⟨limit, rfl⟩
  · rw [hrun, hd, nil_append]
    have hfeed : t = .lf → s = false := by
      rintro rfl
      rw [← Bool.not_eq_true]
      intro hstrue
      obtain ⟨rfl, hd'⟩ := hs hstrue
      exact hskip hd' rfl
    refine (@foldlM_terminator (retouch n s k ({ d with line }, frames)).1 frames t hfeed).imp id ?_
    rintro ⟨m, k', hend, hm⟩
    refine ⟨m, k', hend, hm.trans ?_⟩
    rw [finishedLine_eq_nil]
    tauto

/-- **Lines with any terminators** are read as lines without one. -/
theorem foldlM_joined {lines : Lines} {last : Bytes} (hlines : ∀ line ∈ lines, Unended line.1)
    (hlast : Unended last) (hapart : Apart lines) (hd : d.line = [])
    (hskip : d.skipLf = true → ∀ line ∈ lines.head?, line ≠ ([], .lf)) :
    TooLarge ((joined lines last).foldlM pushByte (d, frames)) ∨
      ∃ n s k, (joined lines last).foldlM pushByte (d, frames) =
          (readLines (d, frames) (lines.map fst) last).map (retouch n s k) ∧
        (n = 0 ↔ last = [] ∧ countsNothing (d.frameBytes == 0) d.atStreamStart lines = true) := by
  induction lines generalizing d frames with
  | nil =>
    refine (foldlM_unended hlast).imp id ?_
    rintro ⟨n, s, k, hrun, hn, -⟩
    rw [hd, nil_append] at hrun
    exact ⟨n, s, k, hrun, by simpa [countsNothing] using hn⟩
  | cons l lines ih =>
    obtain ⟨line, t⟩ := l
    obtain ⟨hline, hlines⟩ := forall_mem_cons.mp hlines
    obtain ⟨hnext, hapart⟩ := isChain_cons.mp hapart
    have hsplit : joined ((line, t) :: lines) last = (line ++ t.bytes) ++ joined lines last := by
      simp [joined]
    rw [hsplit, foldlM_append]
    rcases @foldlM_line d frames line t hline hd fun h => hskip h _ rfl with
      ⟨limit, hlarge⟩ | ⟨n, k, hrun, hn⟩
    · rw [hlarge]
      exact .inl ⟨limit, rfl⟩
    have hfirst : readLines (d, frames) (line :: lines.map fst) last =
        (readLine (d, frames) line).bind fun r => readLines r (lines.map fst) last := by
      unfold readLines
      rw [foldlM_cons]
      cases readLine (d, frames) line <;> rfl
    rw [hrun, map_cons, hfirst]
    cases hread : readLine (d, frames) line with
    | error e =>
      refine .inr ⟨if last = [] ∧ countsNothing (d.frameBytes == 0) d.atStreamStart
        ((line, t) :: lines) then 0
        else 1, false, false, rfl, ?_⟩
      simp
    | ok r =>
      obtain ⟨hr, hstart⟩ := of_readLine hread
      refine (ih (d := (retouch n (t == .cr) k r).1) hlines hapart hr ?_).imp id ?_
      · intro hcr y hy
        exact hnext y hy (by simpa [retouch] using hcr)
      rintro ⟨m, s, k', hrest, hm⟩
      refine ⟨m, s, k', hrest.trans ?_, hm.trans ?_⟩
      · exact congrArg (Except.map (retouch m s k')) readLines_retouch
      · have hzero : ((retouch n (t == .cr) k r).1.frameBytes == 0) =
            (line.isEmpty || (d.atStreamStart && line == byteOrderMark && t != .crlf)) := by
          rw [Bool.eq_iff_iff]
          simpa [retouch, and_assoc] using hn
        rw [hzero]
        exact Iff.of_eq (congrArg _ (congrArg (countsNothing _ · lines = true) hstart))

/-! ## Two mixtures -/

variable {ts us : Lines} {last : Bytes} {maxFrameBytes maxFramesPerPush : Nat}

theorem countsNothing_congr {zero : Bool} (h : ts.map fst = us.map fst) :
    countsNothing zero false ts = countsNothing zero false us := by
  induction ts generalizing us zero with
  | nil =>
    rw [map_eq_nil_iff.mp h.symm]
  | cons t ts ih =>
    obtain ⟨u, us, rfl, hu, hus⟩ := map_eq_cons_iff.mp h.symm
    simp only [countsNothing, hu, Bool.false_and, Bool.or_false]
    exact ih hus.symm

/-- The text is a byte order mark on a line, which is ended by a pair in one of the two mixtures. -/
def MarkAlone (ts us : Lines) (last : Bytes) : Prop :=
  ts.map fst = [byteOrderMark] ∧ last = [] ∧
    (ts = [(byteOrderMark, .crlf)] ↔ us ≠ [(byteOrderMark, .crlf)])

theorem countsNothing_iff (h : ts.map fst = us.map fst) (hlast : last = []) :
    (countsNothing true true ts = countsNothing true true us) ↔ ¬MarkAlone ts us last := by
  match ts, us, h with
  | [], [], _ => simp [MarkAlone]
  | [(line, t)], [(line', u)], h =>
    obtain rfl : line = line' := by simpa using h
    by_cases hmark : line = byteOrderMark
    · cases t <;> cases u <;> simp [MarkAlone, countsNothing, hmark, hlast, byteOrderMark] <;> rfl
    · have hother : (line == byteOrderMark) = false := by simpa using hmark
      simp [MarkAlone, countsNothing, hmark, hother]
  | (line, t) :: second :: ts, (line', u) :: second' :: us, h =>
    refine iff_of_true ?_ (by simp [MarkAlone])
    obtain ⟨-, hsecond, hrest⟩ : line = line' ∧ second.1 = second'.1 ∧ ts.map fst = us.map fst := by
      simpa using h
    simp only [countsNothing, hsecond, Bool.false_and, Bool.or_false]
    exact countsNothing_congr hrest

theorem finish_retouch {m : Nat} {s' k' : Bool} :
    (retouch n s k r).1.finish.2 = (retouch m s' k' r).1.finish.2 ↔
      r.1.failed = true ∨ (retouch 0 s k r).1.atRest = false ∨ (n = 0 ↔ m = 0) := by
  have hrest : ∀ n s' k', (retouch n s' k' r).1.atRest =
      ((retouch 0 s k r).1.atRest && n == 0) := by
    simp [retouch, atRest]
  have hfailed : ∀ n s k, (retouch n s k r).1.failed = r.1.failed := fun _ _ _ => rfl
  simp only [finish, hfailed, hrest n, hrest m]
  cases r.1.failed <;> cases (retouch 0 s k r).1.atRest <;> by_cases hn : n = 0 <;> by_cases hm :
    m = 0 <;> simp [hn, hm]

theorem readLines_mark :
    readLines (withLimits maxFrameBytes maxFramesPerPush, []) [byteOrderMark] [] =
      .ok (({ withLimits maxFrameBytes maxFramesPerPush with atStreamStart := false }).blind,
        []) := by
  rfl

/-- The decoder's limit is not reached. -/
def Fits (d : SseDecoder) (bytes : Bytes) : Prop := ∀ limit,
    (d.push bytes).2 ≠ .error (.frameTooLarge limit)

theorem push_joined (hts : ∀ line ∈ ts.map fst, Unended line) (hlast : Unended last)
    (hapart : Apart ts) (hfits : (withLimits maxFrameBytes maxFramesPerPush).Fits
    (joined ts last)) :
    ∃ n s k, (withLimits maxFrameBytes maxFramesPerPush).pushInner (joined ts last) =
        (readLines (withLimits maxFrameBytes maxFramesPerPush, []) (ts.map fst) last).map
      (retouch n s k) ∧ (n = 0 ↔ last = [] ∧ countsNothing true true ts = true) := by
  refine (foldlM_joined (by simpa using hts) hlast hapart rfl (by simp [withLimits])).resolve_left
    ?_
  rintro ⟨limit, hlarge⟩
  have hpush : (withLimits maxFrameBytes maxFramesPerPush).pushInner (joined ts last) = _ := hlarge
  refine hfits limit ?_
  rw [push, hpush]
  rfl

/-- **Line ends do not matter**, with one exception. -/
theorem push_joined_iff (hsame : ts.map Prod.fst = us.map Prod.fst)
    (hlines : ∀ line ∈ ts.map Prod.fst, Unended line) (hlast : Unended last) (hts : Apart ts)
    (hus : Apart us) (htsFits : (withLimits maxFrameBytes maxFramesPerPush).Fits (joined ts last))
    (husFits : (withLimits maxFrameBytes maxFramesPerPush).Fits (joined us last)) :
    let pushed lines := (withLimits maxFrameBytes maxFramesPerPush).push (joined lines last)
    (pushed ts).2 = (pushed us).2 ∧
      ((pushed ts).1.finish.2 = (pushed us).1.finish.2 ↔ ¬MarkAlone ts us last) := by
  obtain ⟨n, s, k, hpushTs, hn⟩ := push_joined hlines hlast hts htsFits
  obtain ⟨m, s', k', hpushUs, hm⟩ := push_joined (hsame ▸ hlines) hlast hus husFits
  rw [← hsame] at hpushUs
  intro pushed
  simp only [pushed, push, hpushTs, hpushUs]
  cases hread : readLines (withLimits maxFrameBytes maxFramesPerPush, [])
    (ts.map Prod.fst) last with
  | error e =>
    refine ⟨rfl, iff_of_true rfl ?_⟩
    rintro ⟨hmark, rfl, -⟩
    rw [hmark, readLines_mark] at hread
    cases hread
  | ok r =>
    refine ⟨rfl, finish_retouch.trans ?_⟩
    by_cases hend : last = []
    · have hcounts : (n = 0 ↔ m = 0) ↔ ¬MarkAlone ts us last := by
        rw [hn, hm, ← countsNothing_iff hsame hend, and_iff_right hend, and_iff_right hend]
        exact Bool.eq_iff_iff.symm
      rw [hcounts]
      refine ⟨?_, fun hother => .inr (.inr hother)⟩
      rintro hwhole hmark
      -- nothing is left of the mark, so that the count alone decides
      rw [hmark.1, hend, readLines_mark] at hread
      cases hread
      rcases hwhole with hfailed | hrest | hother
      · cases hfailed
      · cases hrest
      · exact hother hmark
    · refine iff_of_true (.inr (.inr ?_)) fun hmark => hend hmark.2.1
      rw [hn, hm]
      exact iff_of_false (fun h => hend h.1) fun h => hend h.1

/-- A byte order mark, a blank line and a comment. -/
theorem push_joined_iff_comment :
    let pushed := fun t : Terminator =>
      (withLimits 9 1).push (joined [(byteOrderMark, t), ([], .crlf), ([0x3a], t)] [])
    (pushed .crlf).2 = (pushed .cr).2 ∧ (pushed .crlf).1.finish.2 = (pushed .cr).1.finish.2 := by
  have hfits : ∀ t, (withLimits 9 1).Fits (joined [(byteOrderMark, t), ([], .crlf), ([0x3a], t)]
      []) := by
    intro t limit
    rw [show (push _ _).2 = .ok [] by cases t <;> decide +kernel]
    simp
  have hlines : ∀ line ∈ [byteOrderMark, [], [0x3a]], Unended line := by
    simp [Unended, byteOrderMark, carriageReturn, lineFeed]
  have h := push_joined_iff rfl (by exact hlines) (by simp [Unended]) (by decide) (by decide)
    (hfits .crlf) (hfits .cr)
  exact ⟨h.1, h.2.mpr (by simp [MarkAlone])⟩

/-- **A byte order mark and a pair** are not a whole stream; the mark and a line feed are. -/
theorem finish_mark_pair :
    ((withLimits 9 1).push [0xef, 0xbb, 0xbf, 0x0d, 0x0a]).1.finish.2 = .error .unexpectedEof ∧
      ((withLimits 9 1).push [0xef, 0xbb, 0xbf, 0x0a]).1.finish.2 = .ok [] ∧
      ((withLimits 9 1).push [0xef, 0xbb, 0xbf, 0x0d]).1.finish.2 = .ok [] := by
  decide +kernel

end SseDecoder

end Wokcore.Protocols.Stream
