import Wokcore.Protocols.Stream.Sse
import Wokcore.Lib.Json.Size

/-!
# Encoded frames, read again (`encode_sse` of `wokcore-protocols/src/stream/sse.rs`)

A frame is written as at most two lines and a blank one. `SseDecoder.feed_line` reads a line,
`SseDecoder.feed_frame` a frame, and `SseDecoder.feed_frames` any number of frames. The texts need
only be free of line ends: JSON texts are, because the printer escapes every control character.
-/

set_option autoImplicit false

namespace Wokcore.Protocols.Stream

open Lib SseDecoder List

/-- A value and the event it is sent as. -/
abbrev SseValue := Option String × Value

variable {text : List Char} {ps : List SseValue} {limit : Nat}

/-! ## Writing -/

/-- The lines of a frame that say something. -/
def frameLines (event : Option String) (text : List Char) : Bytes :=
  (match event with
    | some name => encodeUtf8 ("event: ".toList ++ name.toList) ++ [lineFeed]
    | none => []) ++ (encodeUtf8 ("data: ".toList ++ text) ++ [lineFeed])

/-- A frame: its lines and a blank one. -/
def frameText (event : Option String) (text : List Char) : Bytes :=
    frameLines event text ++ [lineFeed]

/-- The filter of `encode_sse`: a name that would end its line is left out. -/
def safeEvent (event : Option String) : Option String :=
  event.filter fun name => !name.toList.any fun c => c == '\r' || c == '\n'

/-- `encode_sse`. -/
def encodeSse (event : Option String) (data : Value) : Bytes :=
    frameText (safeEvent event) data.tree.print

/-- Named events, one after the other. -/
abbrev sseBytes (events : List (String × Value)) : Bytes := events.flatMap fun e =>
    encodeSse (some e.1) e.2

/-- The frame `encode_sse` stands for. -/
def sentFrame (p : SseValue) : SseFrame := ⟨safeEvent p.1, .ofList p.2.tree.print⟩

/-- How many of the encoded pairs lie within the first `n` bytes of their stream. -/
def completedBy : List SseValue → Nat → Nat
  | [], _ => 0
  | p :: ps, n =>
    let size := (encodeSse p.1 p.2).length
    if size ≤ n then completedBy ps (n - size) + 1 else 0

/-! ## Texts on one line -/

def OneLine (text : List Char) : Prop := '\r' ∉ text ∧ '\n' ∉ text

theorem OneLine.append {more : List Char} (h₁ : OneLine text) (h₂ : OneLine more) :
    OneLine (text ++ more) :=
  ⟨fun h => (mem_append.mp h).elim h₁.1 h₂.1, fun h => (mem_append.mp h).elim h₁.2 h₂.2⟩

theorem oneLine_print (j : Json) : OneLine j.print :=
  ⟨fun h => absurd (Json.print_printable h) (by decide), fun h => absurd (Json.print_printable h)
    (by decide)⟩

theorem oneLine_of_safeEvent {event : Option String} {name : String}
    (h : safeEvent event = some name) :
    OneLine name.toList := by
  obtain ⟨-, hsafe⟩ := Option.filter_eq_some_iff.mp h
  simp only [Bool.not_eq_true', any_eq_false, Bool.or_eq_true, beq_iff_eq, not_or] at hsafe
  exact ⟨fun hm => (hsafe _ hm).1 rfl, fun hm => (hsafe _ hm).2 rfl⟩

/-- The bytes of a text on one line end no line. -/
theorem OneLine.bytes (h : OneLine text) {b : UInt8} (hb : b ∈ encodeUtf8 text) :
    b ≠ carriageReturn ∧ b ≠ lineFeed := by
  constructor
  · rintro rfl
    obtain ⟨c, hc, hval⟩ := mem_encodeUtf8 hb (by decide)
    have hchar : c = '\r' := Char.toNat_inj.mp hval
    exact h.1 (hchar ▸ hc)
  · rintro rfl
    obtain ⟨c, hc, hval⟩ := mem_encodeUtf8 hb (by decide)
    have hchar : c = '\n' := Char.toNat_inj.mp hval
    exact h.2 (hchar ▸ hc)

namespace SseDecoder

variable {d : SseDecoder} {event : Option String}

/-! ## Reading a line -/

theorem addFrameBytes_of_le (hfit : d.frameBytes + 1 ≤ d.maxFrameBytes) :
    d.addFrameBytes 1 = .ok { d with frameBytes := satAdd u64Max d.frameBytes 1 } := by
  refine if_neg ?_
  show ¬ satAdd u64Max d.frameBytes 1 > d.maxFrameBytes
  unfold satAdd
  omega

theorem byteStep_eq_takeByte (hskip : d.skipLf = false) (b : UInt8) :
    d.byteStep b = d.takeByte [] b := by
  cases d
  subst hskip
  simp [byteStep, pushByte]

theorem byteStep_inLine {b : UInt8} (hb : b ≠ carriageReturn ∧ b ≠ lineFeed)
    (hskip : d.skipLf = false) (hfit : d.frameBytes + 1 ≤ d.maxFrameBytes) :
    d.byteStep b =
      .ok ({ d with line := d.line ++ [b], frameBytes := satAdd u64Max d.frameBytes 1 }, []) := by
  rw [byteStep_eq_takeByte hskip, takeByte, if_neg hb.1, if_neg hb.2, addFrameBytes_of_le hfit]
  rfl

theorem feed_inLine {bytes : Bytes} (hbytes : ∀ b ∈ bytes, b ≠ carriageReturn ∧ b ≠ lineFeed)
    (hskip : d.skipLf = false) (hword : d.frameBytes ≤ u64Max)
    (hfit : d.frameBytes + bytes.length ≤ d.maxFrameBytes) :
    feed byteStep d bytes = .ok ({ d with
      line := d.line ++ bytes, frameBytes := satAdd u64Max d.frameBytes bytes.length }, []) := by
  induction bytes generalizing d with
  | nil =>
    have hzero : satAdd u64Max d.frameBytes 0 = d.frameBytes := satAdd_of_le hword
    rw [feed_nil, append_nil, length_nil, hzero]
  | cons b bytes ih =>
    rw [length_cons] at hfit
    let next : SseDecoder :=
      { d with line := d.line ++ [b], frameBytes := satAdd u64Max d.frameBytes 1 }
    have hword' : next.frameBytes ≤ u64Max := satAdd_le u64Max d.frameBytes 1
    have hle : next.frameBytes ≤ d.frameBytes + 1 := Nat.min_le_left _ _
    have hfit' : next.frameBytes + bytes.length ≤ next.maxFrameBytes := by
      show next.frameBytes + bytes.length ≤ d.maxFrameBytes
      omega
    have hsum : satAdd u64Max next.frameBytes bytes.length =
        satAdd u64Max d.frameBytes (b :: bytes).length := by
      simp only [next, satAdd, length_cons]
      omega
    have hrest := ih (d := next) (fun x hx => hbytes x (by simp [hx])) hskip hword' hfit'
    rw [hsum] at hrest
    refine feed_cons_eq_ok.mpr ⟨next, [], [], byteStep_inLine (hbytes b (by simp)) hskip (by omega),
      ?_, rfl⟩
    rw [hrest]
    simp [next]

/-- The text of a line that does not start with a byte order mark. -/
def Unmarked (text : List Char) : Prop := byteOrderMark.isPrefixOf (encodeUtf8 text) = false

theorem encodeUtf8_ne_nil (h : text ≠ []) : encodeUtf8 text ≠ [] := by
  intro hnil
  have hdec := decodeUtf8_encodeUtf8 text
  rw [hnil] at hdec
  exact h (Option.some.inj ((decodeUtf8_encodeUtf8 []).symm.trans hdec)).symm

theorem processLine_of_unmarked (hline : d.line = encodeUtf8 text) (hmark : Unmarked text)
    (frames : List SseFrame) :
    d.processLine frames =
      ({ d with line := [], atStreamStart := false } : SseDecoder).processText frames text := by
  have hfinished : d.finishedLine = encodeUtf8 text := by
    unfold finishedLine
    rw [hline, show byteOrderMark.isPrefixOf (encodeUtf8 text) = false from hmark, Bool.and_false]
    rfl
  rw [processLine, hfinished, decodeUtf8_encodeUtf8]

theorem byteStep_lineFeed (hline : d.line = encodeUtf8 text) (hne : text ≠ [])
    (hskip : d.skipLf = false) (hmark : Unmarked text) (hfit : d.frameBytes + 1 ≤ d.maxFrameBytes) :
    d.byteStep lineFeed =
      ({ d with
        line := []
        frameBytes := satAdd u64Max d.frameBytes 1
        atStreamStart := false } : SseDecoder).processText [] text := by
  have hcr : lineFeed ≠ carriageReturn := by decide
  have hbytes : (!d.line.isEmpty) = true := by simp [hline, encodeUtf8_ne_nil hne]
  rw [byteStep_eq_takeByte hskip, takeByte, if_neg hcr, if_pos rfl, if_pos hbytes,
    addFrameBytes_of_le hfit]
  exact processLine_of_unmarked (d := { d with frameBytes := satAdd u64Max d.frameBytes 1 }) hline
    hmark []

/-- **A line.** A line of text, from its first byte to its line feed, is processed as that text. -/
theorem feed_line (hline : d.line = []) (hskip : d.skipLf = false) (hone : OneLine text)
    (hne : text ≠ []) (hmark : Unmarked text) (hword : d.frameBytes ≤ u64Max)
    (hfit : d.frameBytes + (encodeUtf8 text).length + 1 ≤ d.maxFrameBytes) :
    feed byteStep d (encodeUtf8 text ++ [lineFeed]) =
      ({ d with
        frameBytes := satAdd u64Max d.frameBytes ((encodeUtf8 text).length + 1)
        atStreamStart := false } : SseDecoder).processText [] text := by
  have hread := feed_inLine (d := d) (fun b hb => hone.bytes hb) hskip hword (by omega)
  rw [hline, nil_append] at hread
  have hmiddle : satAdd u64Max d.frameBytes (encodeUtf8 text).length ≤
      d.frameBytes + (encodeUtf8 text).length := Nat.min_le_left _ _
  have hend : satAdd u64Max (satAdd u64Max d.frameBytes (encodeUtf8 text).length) 1 =
      satAdd u64Max d.frameBytes ((encodeUtf8 text).length + 1) := by
    unfold satAdd
    omega
  rw [feed_append_of_silent hread, feed_singleton]
  refine (byteStep_lineFeed (d := { d with
    line := encodeUtf8 text, frameBytes := satAdd u64Max d.frameBytes (encodeUtf8 text).length })
    rfl hne hskip hmark ?_).trans ?_
  · show satAdd u64Max d.frameBytes (encodeUtf8 text).length + 1 ≤ d.maxFrameBytes
    omega
  · rw [hend, ← hline]

theorem byteStep_blank (hline : d.line = []) (hskip : d.skipLf = false) :
    d.byteStep lineFeed = ({ d with atStreamStart := false } : SseDecoder).endFrame [] := by
  have hcr : lineFeed ≠ carriageReturn := by decide
  have hbytes : ¬(!d.line.isEmpty) = true := by simp [hline]
  have hmark : Unmarked [] := rfl
  rw [byteStep_eq_takeByte hskip, takeByte, if_neg hcr, if_pos rfl, if_neg hbytes]
  refine (processLine_of_unmarked hline hmark []).trans ?_
  rw [← hline]
  rfl

/-! ## Reading a frame -/

/-- The decoder between two frames. -/
structure Ready (d : SseDecoder) : Prop where
  line : d.line = []
  event : d.event = none
  data : d.data = ""
  sawData : d.sawData = false
  frameBytes : d.frameBytes = 0
  skipLf : d.skipLf = false

theorem ready_withLimits (maxFrameBytes maxFramesPerPush : Nat) :
    Ready (withLimits maxFrameBytes maxFramesPerPush) := ⟨rfl, rfl, rfl, rfl, rfl, rfl⟩

theorem Ready.started (h : Ready d) : Ready { d with atStreamStart := false } := { h with }

theorem Ready.finish (h : Ready d) (hfailed : d.failed = false) : d.finish.2 = .ok [] := by
  have hrest : d.atRest = true := by
    simp [atRest, h.line, h.event, h.data, h.sawData, h.frameBytes]
  simp [SseDecoder.finish, hfailed, hrest]

theorem processText_event (d : SseDecoder) (name : List Char) :
    d.processText [] ("event: ".toList ++ name) = .ok ({ d with event := some (.ofList name) },
      []) := rfl

theorem processText_data (d : SseDecoder) (text : List Char) (h : d.sawData = false)
    (hdata : d.data = "") :
    d.processText [] ("data: ".toList ++ text) =
      .ok ({ d with data := .ofList text, sawData := true }, []) := by
  show Except.ok (d.takeField ("data: ".toList ++ text), []) = _
  have hfield : splitField ("data: ".toList ++ text) = ("data".toList, text) := rfl
  have hother : "data".toList ≠ "event".toList := by decide
  unfold takeField
  rw [hfield]
  dsimp only
  rw [if_neg hother, if_pos rfl, h, hdata, if_neg Bool.false_ne_true, String.empty_append]

theorem unmarked_event (name : List Char) : Unmarked ("event: ".toList ++ name) := rfl

theorem unmarked_data (text : List Char) : Unmarked ("data: ".toList ++ text) := rfl

theorem oneLine_event : OneLine "event: ".toList := ⟨by decide, by decide⟩

theorem oneLine_data : OneLine "data: ".toList := ⟨by decide, by decide⟩

/-- The decoder after the line with the data of a frame. -/
def holding (d : SseDecoder) (event : Option String) (text : List Char) (frameBytes : Nat) :
    SseDecoder :=
  { d with event, data := .ofList text, sawData := true, frameBytes, atStreamStart := false }

theorem feed_dataLine (hline : d.line = []) (hdata : d.data = "") (hsaw : d.sawData = false)
    (hskip : d.skipLf = false) (hone : OneLine text) (hword : d.frameBytes ≤ u64Max)
    (hfit : d.frameBytes + (encodeUtf8 ("data: ".toList ++ text)).length + 1 ≤ d.maxFrameBytes) :
    ∃ n, feed byteStep d (encodeUtf8 ("data: ".toList ++ text) ++ [lineFeed]) =
      .ok (d.holding d.event text n, []) := by
  refine ⟨satAdd u64Max d.frameBytes ((encodeUtf8 ("data: ".toList ++ text)).length + 1), ?_⟩
  rw [feed_line hline hskip (oneLine_data.append hone) (by simp) (unmarked_data text) hword hfit]
  exact processText_data _ text hsaw hdata

/-- The lines of a frame give out nothing. -/
theorem feed_frameLines (hd : Ready d) (hone : OneLine text)
    (hevent : ∀ name ∈ event, OneLine name.toList)
    (hfit : (frameLines event text).length ≤ d.maxFrameBytes) :
    ∃ n, feed byteStep d (frameLines event text) = .ok (d.holding event text n, []) := by
  cases event with
  | none =>
    rw [frameLines, nil_append, length_append, length_singleton] at hfit
    have hzero := hd.frameBytes
    obtain ⟨n, hn⟩ := feed_dataLine hd.line hd.data hd.sawData hd.skipLf hone (by omega)
      (by rw [hzero, Nat.zero_add]; exact hfit)
    rw [hd.event] at hn
    exact ⟨n, hn⟩
  | some name =>
    simp only [frameLines, length_append, length_singleton] at hfit
    have hzero := hd.frameBytes
    let next : SseDecoder := { d with
      frameBytes := satAdd u64Max d.frameBytes
        ((encodeUtf8 ("event: ".toList ++ name.toList)).length + 1)
      atStreamStart := false
      event := some name }
    have hname : feed byteStep d (encodeUtf8 ("event: ".toList ++ name.toList) ++ [lineFeed]) =
        .ok (next, []) := by
      rw [feed_line hd.line hd.skipLf (oneLine_event.append (hevent name rfl)) (by simp)
        (unmarked_event _) (by omega) (by omega), processText_event, String.ofList_toList]
    have hle : next.frameBytes ≤ 0 + ((encodeUtf8 ("event: ".toList ++ name.toList)).length +
        1) := by
      simp only [next, hzero]
      exact Nat.min_le_left _ _
    obtain ⟨n, hn⟩ := feed_dataLine (d := next) hd.line hd.data hd.sawData hd.skipLf hone
      (satAdd_le _ _ _) (by show next.frameBytes + _ + 1 ≤ d.maxFrameBytes; omega)
    refine ⟨n, ?_⟩
    rw [frameLines, feed_append_of_silent hname, hn]
    rfl

theorem endFrame_holding (hd : Ready d) (n : Nat) (hroom : 0 < d.maxFramesPerPush) :
    (d.holding event text n).endFrame [] =
      .ok ({ d with atStreamStart := false }, [⟨event, .ofList text⟩]) := by
  have hnone : ¬([] : List SseFrame).length ≥ d.maxFramesPerPush := Nat.not_le.mpr hroom
  cases d
  obtain ⟨hline, hevent, hdata, hsaw, hbytes, hskip⟩ := hd
  simp only at hline hevent hdata hsaw hbytes hskip hnone
  simp only [endFrame, holding, if_true, nil_append, hevent, hdata, hsaw, hbytes]
  exact if_neg hnone

/-- **A frame.** Between two frames the decoder reads an encoded frame to its end and gives it
    out. -/
theorem feed_frame (hd : Ready d) (hone : OneLine text)
    (hevent : ∀ name ∈ event, OneLine name.toList) (hroom : 0 < d.maxFramesPerPush)
    (hfit : (frameLines event text).length ≤ d.maxFrameBytes) :
    feed byteStep d (frameText event text) =
      .ok ({ d with atStreamStart := false }, [⟨event, .ofList text⟩]) := by
  obtain ⟨n, hlines⟩ := feed_frameLines hd hone hevent hfit
  rw [frameText, feed_append_of_silent hlines, feed_singleton,
    byteStep_blank (d := d.holding event text n) hd.line hd.skipLf]
  exact endFrame_holding hd n hroom

/-! ## Reading a stream -/

/-- A frame as it is written: its event and its text. -/
structure Written (p : Option String × List Char) : Prop where
  text : OneLine p.2
  event : ∀ name ∈ p.1, OneLine name.toList

/-- **A stream of frames.** Between two frames the decoder reads any number of encoded frames and
    gives out each of them. -/
theorem feed_frames {ps : List (Option String × List Char)} (hd : Ready d)
    (hroom : 0 < d.maxFramesPerPush) (hwritten : ∀ p ∈ ps, Written p)
    (hfit : ∀ p ∈ ps, (frameLines p.1 p.2).length ≤ d.maxFrameBytes) :
    ∃ d', feed byteStep d (ps.flatMap fun p => frameText p.1 p.2) =
        .ok (d', ps.map fun p => ⟨p.1, .ofList p.2⟩) ∧ Ready d' := by
  induction ps generalizing d with
  | nil => exact ⟨d, rfl, hd⟩
  | cons p ps ih =>
    have hp := hwritten p (by simp)
    have hone := feed_frame hd hp.text hp.event hroom (hfit p (by simp))
    obtain ⟨d', hrest, hready⟩ := ih hd.started hroom (fun q hq => hwritten q (by simp [hq]))
      (fun q hq => hfit q (by simp [hq]))
    exact ⟨d', feed_append.mpr ⟨_, _, _, hone, hrest, rfl⟩, hready⟩

end SseDecoder

theorem written_encodeSse (p : SseValue) : Written (safeEvent p.1, p.2.tree.print) :=
  ⟨oneLine_print _, fun _ h => oneLine_of_safeEvent h⟩

/-- The first `n` bytes of a stream give out the frames that end within them. -/
theorem SseDecoder.length_feed_take {d d' : SseDecoder} {n : Nat} {out : List SseFrame}
    (hd : Ready d) (hroom : 0 < d.maxFramesPerPush)
    (hfit : ∀ p ∈ ps, (encodeSse p.1 p.2).length ≤ d.maxFrameBytes)
    (h : feed byteStep d ((ps.flatMap fun p => encodeSse p.1 p.2).take n) = .ok (d', out)) :
    out.length = completedBy ps n := by
  induction ps generalizing d n out with
  | nil =>
    rw [flatMap_nil, take_nil] at h
    cases h
    rfl
  | cons p ps ih =>
    have hw := written_encodeSse p
    have hsize : (frameLines (safeEvent p.1) p.2.tree.print).length + 1 =
        (encodeSse p.1 p.2).length := by
      rw [encodeSse, frameText, length_append, length_singleton]
    have hp : (frameLines (safeEvent p.1) p.2.tree.print).length ≤ d.maxFrameBytes := by
      have := hfit p (by simp)
      omega
    rw [flatMap_cons, take_append] at h
    obtain ⟨e, o, q, hfirst, hrest, rfl⟩ := feed_append.mp h
    rw [completedBy]
    by_cases hin : (encodeSse p.1 p.2).length ≤ n
    · have hframe := feed_frame hd hw.text hw.event hroom hp
      rw [take_of_length_le hin] at hfirst
      rw [← encodeSse, hfirst] at hframe
      cases hframe
      rw [if_pos hin, length_append, ih hd.started hroom (fun q hq => hfit q (by simp [hq])) hrest]
      exact Nat.add_comm _ _
    · -- the frame is not finished, and its lines give out nothing
      obtain ⟨m, hlines⟩ := feed_frameLines hd hw.text hw.event hp
      have hshort : (encodeSse p.1 p.2).take n =
          (frameLines (safeEvent p.1) p.2.tree.print).take n := by
        rw [encodeSse, frameText, take_append_of_le_length (by omega)]
      rw [← take_append_drop n (frameLines (safeEvent p.1) p.2.tree.print)] at hlines
      obtain ⟨e', o', q', h₁, -, hnil⟩ := feed_append.mp hlines
      rw [hshort, h₁] at hfirst
      cases hfirst
      obtain ⟨rfl, -⟩ := append_eq_nil_iff.mp hnil.symm
      rw [Nat.sub_eq_zero_of_le (Nat.le_of_not_le hin), take_zero] at hrest
      cases hrest
      rw [if_neg hin]
      rfl

theorem encodeSse_ne_nil (event : Option String) (data : Value) : encodeSse event data ≠ [] :=
  append_ne_nil_of_right_ne_nil _ (cons_ne_nil _ _)

theorem completedBy_zero (ps : List SseValue) : completedBy ps 0 = 0 := by
  cases ps with
  | nil => rfl
  | cons p ps =>
    have hpos : 0 < (encodeSse p.1 p.2).length := length_pos_iff.mpr (encodeSse_ne_nil p.1 p.2)
    exact if_neg (Nat.not_le.mpr hpos)

theorem completedBy_all (ps : List SseValue) :
    completedBy ps (ps.flatMap fun p => encodeSse p.1 p.2).length = ps.length := by
  induction ps with
  | nil => rfl
  | cons p ps ih =>
    rw [flatMap_cons, length_append, completedBy, if_pos (Nat.le_add_right _ _),
      Nat.add_sub_cancel_left, ih, length_cons]

theorem completedBy_le_length (ps : List SseValue) (n : Nat) : completedBy ps n ≤ ps.length := by
  induction ps generalizing n with
  | nil => exact Nat.le_refl 0
  | cons p ps ih =>
    rw [completedBy]
    split
    · exact Nat.succ_le_succ (ih _)
    · exact Nat.zero_le _

/-- No push completes more than `limit` of the encoded pairs. -/
def FewPerPush (ps : List SseValue) (limit : Nat) (chunks : List Bytes) : Prop :=
  ∀ before chunk after, chunks = before ++ chunk :: after →
    completedBy ps (before.flatten.length + chunk.length) ≤ completedBy ps before.flatten.length +
    limit

theorem fewPerPush_of_length_le (h : ps.length ≤ limit) (chunks : List Bytes) :
    FewPerPush ps limit chunks := by
  intro before chunk after _
  have := completedBy_le_length ps (before.flatten.length + chunk.length)
  omega

theorem FewPerPush.completedBy_le {chunks : List Bytes} (h : FewPerPush ps limit chunks) :
    completedBy ps chunks.flatten.length ≤ chunks.length * limit := by
  suffices hprefix : ∀ before after, chunks = before ++ after →
      completedBy ps before.flatten.length ≤ before.length * limit from hprefix chunks [] (by simp)
  intro before
  induction before using reverseRecOn with
  | nil => exact fun _ _ => Nat.le_of_eq ((completedBy_zero ps).trans (Nat.zero_mul _).symm)
  | append_singleton before chunk ih =>
    intro after hcut
    rw [append_assoc] at hcut
    have hbefore := ih _ hcut
    have hone := h before chunk after hcut
    rw [flatten_append, flatten_singleton, length_append, length_append,
      length_singleton, Nat.add_mul, Nat.one_mul]
    omega

/-- **The round trip.** Pairs that are encoded one after another and delivered in any pieces come
    back as one frame each, in order, and the stream ends cleanly. -/
theorem encodeSse_pushAll (maxFrameBytes maxFramesPerPush : Nat) (ps : List (Option String × Value))
    (chunks : List Bytes) (hfit : ∀ p ∈ ps, (encodeSse p.1 p.2).length ≤ maxFrameBytes)
    (hcut : chunks.flatten = ps.flatMap fun p => encodeSse p.1 p.2)
    (hfew : FewPerPush ps maxFramesPerPush chunks) :
    ∃ d, (SseDecoder.withLimits maxFrameBytes maxFramesPerPush).pushAll chunks =
        (d, .ok (ps.map sentFrame)) ∧ d.finish.2 = .ok [] := by
  let fresh := withLimits maxFrameBytes maxFramesPerPush
  have hready : fresh.Ready := ready_withLimits _ _
  have hbytes : (ps.map fun p => (safeEvent p.1, p.2.tree.print)).flatMap
      (fun p => frameText p.1 p.2) = chunks.flatten := by
    rw [hcut, flatMap_map]
    rfl
  have hframes : ((ps.map fun p => (safeEvent p.1, p.2.tree.print)).map fun p =>
      (⟨p.1, .ofList p.2⟩ : SseFrame)) = ps.map sentFrame := map_map
  have hread : ∃ d, feed byteStep fresh chunks.flatten = .ok (d, ps.map sentFrame) ∧ d.Ready := by
    rcases Nat.eq_zero_or_pos maxFramesPerPush with rfl | hroom
    · -- without room for any frame there are no pairs
      have hnone := hfew.completedBy_le
      rw [hcut, completedBy_all, Nat.mul_zero, Nat.le_zero, length_eq_zero_iff] at hnone
      rw [hcut, hnone]
      exact ⟨fresh, rfl, hready⟩
    · rw [← hbytes, ← hframes]
      refine feed_frames hready hroom ?_ ?_
      · intro p hp
        obtain ⟨q, -, rfl⟩ := mem_map.mp hp
        exact written_encodeSse q
      · intro p hp
        obtain ⟨q, hq, rfl⟩ := mem_map.mp hp
        have hsize := hfit q hq
        rw [encodeSse, frameText, length_append] at hsize
        exact Nat.le_trans (Nat.le_add_right _ _) hsize
  obtain ⟨d, hfeed, hd⟩ := hread
  refine ⟨d, pushAll_of_feed rfl hfeed ?_, hd.finish (kept_feed hfeed).failed⟩
  -- a push gives out as many frames as it completes pairs
  intro before chunk after hsplit e o f q hbefore hchunk
  have hstart : chunks.flatten = before.flatten ++ (chunk ++ after.flatten) := by
    rw [hsplit, flatten_append, flatten_cons]
  rcases Nat.eq_zero_or_pos maxFramesPerPush with rfl | hroom
  · have hnone := hfew.completedBy_le
    rw [hcut, completedBy_all, Nat.mul_zero, Nat.le_zero, length_eq_zero_iff] at hnone
    rw [hcut, hnone, flatMap_nil] at hstart
    obtain ⟨-, hempty⟩ := append_eq_nil_iff.mp hstart.symm
    rw [(append_eq_nil_iff.mp hempty).1] at hchunk
    cases hchunk
    exact Nat.le_refl 0
  · have hboth := feed_append.mpr ⟨e, o, q, hbefore, hchunk, rfl⟩
    have htake : before.flatten = (ps.flatMap fun p => encodeSse p.1 p.2).take
        before.flatten.length := by
      rw [← hcut, hstart, take_left]
    have htake' : before.flatten ++ chunk =
        (ps.flatMap fun p => encodeSse p.1 p.2).take (before.flatten.length + chunk.length) := by
      rw [← hcut, hstart, ← append_assoc, ← length_append, take_left]
    rw [htake] at hbefore
    rw [htake'] at hboth
    have hlen := length_feed_take hready hroom hfit hbefore
    have hlen' := length_feed_take hready hroom hfit hboth
    have hone := hfew before chunk after hsplit
    rw [length_append] at hlen'
    show q.length ≤ maxFramesPerPush
    omega

/-- A name that starts with a space and has a colon in it, and one that tries to write a frame of
    its own, with a cut inside the first line. -/
theorem encodeSse_pushAll_names :
    let ps := [(some " tick: one", Value.ofStr "a\r\nb"), (some "x\ndata: y\n", Value.ofBool true)]
    let stream := ps.flatMap fun p => encodeSse p.1 p.2
    ∃ d, (withLimits 64 2).pushAll [stream.take 9, [], stream.drop 9] =
        (d, .ok [⟨some " tick: one", "\"a\\r\\nb\""⟩, ⟨none, "true"⟩]) ∧ d.finish.2 = .ok [] := by
  intro ps stream
  refine encodeSse_pushAll 64 2 ps [stream.take 9, [], stream.drop 9] ?_ ?_ ?_
  · decide +kernel
  · simp only [flatten_cons, flatten_nil, append_nil, nil_append, stream]
    exact take_append_drop 9 _
  · exact fewPerPush_of_length_le (Nat.le_refl 2) _

end Wokcore.Protocols.Stream
