import Wokcore.Storage.WalFrames

/-!
# A log that was cut off

A crash leaves a log that ends anywhere. `WellFormedWal` is a log as the database writes it, and the
results are about every part of it that a crash can leave, from the header on. Such a part is never
taken for a damaged log. It is analysed unless it is beyond what the inspection is limited to, and
the plan is that of the transactions that lie in it as a whole.
-/

set_option autoImplicit false

namespace Wokcore.Storage.Wal

open Lib Outcome List

/-- A log as it is written: a header, and frames whose checksums continue each other. -/
structure WellFormedWal where
  headerBytes : Bytes
  header : WalHeader
  frames : List Frame
  length_header : headerBytes.length = walHeaderBytes
  read_header : readWalHeader headerBytes = .ok header
  length_frame : ∀ f ∈ frames, f.header.length = walFrameHeaderBytes ∧
    f.page.length = header.pageSize
  valid : validFrames header.checksumOrder header.salt header.checksum frames = frames
  page : ∀ f ∈ frames, f.pageNumber ≠ 0 ∧ f.pageNumber ≤ header.maximumPages
  commit : ∀ f ∈ frames, f.committedPages ≠ 0 → f.pageNumber ≤ f.committedPages

namespace WellFormedWal

def bytes (w : WellFormedWal) : Bytes := w.headerBytes ++ w.frames.flatMap Frame.bytes

/-- The frames that lie wholly in the first `n` bytes. -/
def inside (w : WellFormedWal) (n : Nat) : List Frame :=
    w.frames.take ((n - walHeaderBytes) / w.header.frameBytes)

/-- The first `n` bytes are not beyond what is inspected. -/
def Inspectable (w : WellFormedWal) (n : Nat) : Prop :=
  n ≤ maxWalBytes ∧ ∀ f ∈ w.inside n, f.committedPages ≤ w.header.maximumPages

/-- The plan of the first `n` bytes: the last commit in them, and its number of pages. -/
def plan (w : WellFormedWal) (mainPages n : Nat) : WalPlan where
  header := w.header
  lastCommittedFrame := (committed (w.inside n)).length
  finalPages := finalPages mainPages (w.inside n)

end WellFormedWal

/-! ## Frames that are all valid -/

section Valid

variable {header : WalHeader} {fs : List Frame} {f : Frame} {s : Scan} {rest : List Frame}
  {order : ChecksumOrder} {salt : Bytes}

theorem validFrames_take (sum : Checksum) (fs : List Frame) (k : Nat) :
    validFrames order salt sum (fs.take k) = (validFrames order salt sum fs).take k := by
  induction fs generalizing sum k with
  | nil => simp [validFrames]
  | cons f fs ih =>
    cases k with
    | zero => simp [validFrames]
    | succ k =>
      rw [take_succ_cons, validFrames, validFrames]
      split
      · rw [ih, take_succ_cons]
      · rw [take_nil]

theorem validFrames_cons_eq_self {sum : Checksum}
    (h : validFrames order salt sum (f :: fs) = f :: fs) :
    f.Valid order salt sum ∧ validFrames order salt (f.checksum order sum) fs = fs := by
  rw [validFrames] at h
  split at h
  · next hvalid => exact ⟨hvalid, (cons.inj h).2⟩
  · cases h

/-- A valid frame is taken, or its number of pages is beyond the limit. -/
theorem checkFrame_of_valid (hvalid : f.Valid header.checksumOrder header.salt s.checksum)
    (hpage : f.pageNumber ≠ 0 ∧ f.pageNumber ≤ header.maximumPages)
    (hcommit : f.committedPages ≠ 0 → f.pageNumber ≤ f.committedPages) :
    checkFrame header f rest s = if f.committedPages ≤ header.maximumPages
    then .ok (some (s.advance header f))
      else .error (.limit "state database WAL commit exceeds the inspection limit") := by
  split
  · next hle => exact checkFrame_eq_some.mpr ⟨hvalid, ⟨hpage.1, hpage.2, hle, hcommit⟩, rfl⟩
  · next hbeyond =>
    have hnonzero : (f.pageNumber == 0) = false := by simpa using hpage.1
    have hpage_le : decide (f.pageNumber > header.maximumPages) = false := by simpa using hpage.2
    have hover : decide (f.committedPages > header.maximumPages) = true := by simpa using hbeyond
    rw [checkFrame, if_neg (by simpa using hvalid.1), hnonzero, hpage_le, hover]
    rfl

/-- Valid frames within the limit are all taken. -/
theorem checkFrames_of_valid
    (hvalid : validFrames header.checksumOrder header.salt s.checksum fs = fs)
    (hrange : ∀ f ∈ fs, f.InRange header.maximumPages) :
    checkFrames header fs s = .ok (fs.foldl (Scan.advance header) s) := by
  induction fs generalizing s with
  | nil => rfl
  | cons f fs ih =>
    obtain ⟨hf, hfs⟩ := validFrames_cons_eq_self hvalid
    obtain ⟨hfrange, hfsrange⟩ := forall_mem_cons.mp hrange
    have hcheck : checkFrame header f fs s = .ok (some (s.advance header f)) :=
      checkFrame_eq_some.mpr ⟨hf, hfrange, rfl⟩
    rw [checkFrames, hcheck, ok_bind]
    exact ih (s := s.advance header f) hfs hfsrange

/-- Valid frames are never taken for damaged ones. -/
theorem checkFrames_ne_corrupt
    (hvalid : validFrames header.checksumOrder header.salt s.checksum fs = fs)
    (hpage : ∀ f ∈ fs, f.pageNumber ≠ 0 ∧ f.pageNumber ≤ header.maximumPages)
    (hcommit : ∀ f ∈ fs, f.committedPages ≠ 0 → f.pageNumber ≤ f.committedPages)
    (message : String) :
    checkFrames header fs s ≠ .error (.corrupt message) := by
  induction fs generalizing s with
  | nil =>
    intro h
    cases h
  | cons f fs ih =>
    obtain ⟨hf, hfs⟩ := validFrames_cons_eq_self hvalid
    obtain ⟨hfpage, hfspage⟩ := forall_mem_cons.mp hpage
    obtain ⟨hfcommit, hfscommit⟩ := forall_mem_cons.mp hcommit
    rw [checkFrames, checkFrame_of_valid hf hfpage hfcommit]
    split
    · exact ih (s := s.advance header f) hfs hfspage hfscommit
    · intro h
      cases h

end Valid

/-! ## The frames of a part -/

section Parts

variable {w : WellFormedWal} {n pageSize : Nat}

theorem length_frames {fs : List Frame}
    (h : ∀ f ∈ fs, f.header.length = walFrameHeaderBytes ∧ f.page.length = pageSize) :
    (fs.flatMap Frame.bytes).length = fs.length * (walFrameHeaderBytes + pageSize) := by
  induction fs with
  | nil => simp
  | cons f fs ih =>
    obtain ⟨⟨hheader, hpage⟩, hfs⟩ := forall_mem_cons.mp h
    rw [flatMap_cons, length_append, ih hfs, Frame.bytes, length_append, hheader, hpage,
      length_cons, Nat.succ_mul]
    omega

theorem slice_append_left {xs ys zs : Bytes} {offset m : Nat} (hoffset : offset = xs.length)
    (hm : m = ys.length) :
    Image.slice offset m (xs ++ (ys ++ zs)) = ys := by
  rw [Image.slice, hoffset, hm, drop_left, take_left]

theorem framesFrom_flatMap (before : Bytes) (fs : List Frame) (after : Bytes)
    (h : ∀ f ∈ fs, f.header.length = walFrameHeaderBytes ∧ f.page.length = pageSize) :
    framesFrom (before ++ (fs.flatMap Frame.bytes ++ after)) pageSize fs.length before.length =
      fs := by
  induction fs generalizing before with
  | nil => rfl
  | cons f fs ih =>
    obtain ⟨⟨hheader, hpage⟩, hfs⟩ := forall_mem_cons.mp h
    have hframe : frameAt (before ++ ((f :: fs).flatMap Frame.bytes ++ after)) pageSize
        before.length = f := by
      rw [flatMap_cons, Frame.bytes, append_assoc, append_assoc, frameAt,
        slice_append_left rfl hheader.symm, ← append_assoc before,
        slice_append_left (by rw [length_append, hheader]) hpage.symm]
    have hnext := ih (before ++ f.bytes) hfs
    have hlength : (before ++ f.bytes).length = before.length +
        (walFrameHeaderBytes + pageSize) := by
      rw [length_append, Frame.bytes, length_append, hheader, hpage]
    rw [hlength] at hnext
    rw [length_cons, framesFrom, hframe]
    rw [append_assoc, ← append_assoc f.bytes, ← flatMap_cons] at hnext
    rw [hnext]

theorem readWalHeader_append {header rest : Bytes} (h : header.length = walHeaderBytes) :
    readWalHeader (header ++ rest) = readWalHeader header := by
  have hread : readExact (header ++ rest) 0 walHeaderBytes = readExact header 0 walHeaderBytes := by
    rw [readExact_of_le (by rw [length_append]; omega), readExact_of_le (by omega), Image.slice,
      Image.slice, drop_zero, drop_zero, take_append_of_le_length (by omega)]
  rw [readWalHeader, readWalHeader, hread]

namespace WellFormedWal

theorem length_bytes : w.bytes.length = walHeaderBytes + w.frames.length * w.header.frameBytes := by
  rw [bytes, length_append, w.length_header, length_frames w.length_frame]
  rfl

theorem mem_of_inside {f : Frame} (h : f ∈ w.inside n) : f ∈ w.frames := mem_of_mem_take h

theorem length_inside (hlength : n ≤ w.bytes.length) :
    (w.inside n).length = (n - walHeaderBytes) / w.header.frameBytes := by
  have hcount : (n - walHeaderBytes) / w.header.frameBytes ≤ w.frames.length := by
    refine Nat.le_trans (Nat.div_le_div_right (c := w.header.frameBytes)
      (b := w.frames.length * w.header.frameBytes) ?_)
      (Nat.le_of_eq (Nat.mul_div_cancel _ (frameBytes_pos _)))
    rw [length_bytes] at hlength
    omega
  rw [inside, length_take, Nat.min_eq_left hcount]

/-- A part of a log: the header, the frames in it, and the torn rest. -/
theorem take_bytes (hheader : walHeaderBytes ≤ n) (hlength : n ≤ w.bytes.length) :
    ∃ torn, w.bytes.take n = w.headerBytes ++ ((w.inside n).flatMap Frame.bytes ++ torn) := by
  have hframes : ((w.inside n).flatMap Frame.bytes).length ≤ n - walHeaderBytes := by
    rw [length_frames fun f hf => w.length_frame f (mem_of_inside hf), length_inside hlength]
    exact Nat.div_mul_le_self _ _
  have hsplit : w.frames.flatMap Frame.bytes = (w.inside n).flatMap Frame.bytes ++
      (w.frames.drop ((n - walHeaderBytes) / w.header.frameBytes)).flatMap Frame.bytes := by
    rw [← flatMap_append, inside, take_append_drop]
  refine ⟨((w.frames.drop ((n - walHeaderBytes) / w.header.frameBytes)).flatMap Frame.bytes).take
    (n - walHeaderBytes - ((w.inside n).flatMap Frame.bytes).length), ?_⟩
  rw [bytes, hsplit, take_append, w.length_header, take_of_length_le
    (by rw [w.length_header]; exact hheader), take_append, take_of_length_le hframes]

theorem frames_take (hheader : walHeaderBytes ≤ n) (hlength : n ≤ w.bytes.length) :
    Wal.frames (w.bytes.take n) w.header.pageSize = w.inside n := by
  obtain ⟨torn, htake⟩ := take_bytes hheader hlength
  have hn : (w.bytes.take n).length = n := by rw [length_take, Nat.min_eq_left hlength]
  have hcount : (n - walHeaderBytes) / (walFrameHeaderBytes + w.header.pageSize) =
      (w.inside n).length :=
    (length_inside hlength).symm
  rw [Wal.frames, hn, hcount, htake, ← w.length_header]
  exact framesFrom_flatMap _ _ _ fun f hf => w.length_frame f (mem_of_inside hf)

theorem readWalHeader_take (hheader : walHeaderBytes ≤ n) (hlength : n ≤ w.bytes.length) :
    readWalHeader (w.bytes.take n) = .ok w.header := by
  obtain ⟨torn, htake⟩ := take_bytes hheader hlength
  rw [htake, readWalHeader_append w.length_header, w.read_header]

theorem valid_inside : validFrames w.header.checksumOrder w.header.salt w.header.checksum
    (w.inside n) = w.inside n := by
  rw [inside, validFrames_take, w.valid]

end WellFormedWal

end Parts

/-! ## Cutting further -/

theorem length_committed_append (fs gs : List Frame) :
    (committed fs).length ≤ (committed (fs ++ gs)).length := by
  induction gs using reverseRecOn with
  | nil => rw [append_nil]
  | append_singleton gs g ih =>
    rw [← append_assoc, committed_concat]
    split
    · exact ih
    · have hprefix : (committed fs).length ≤ fs.length := (List.rdropWhile_prefix _ fs).length_le
      rw [length_append, length_append]
      omega

theorem WellFormedWal.length_committed_mono (w : WellFormedWal) {m n : Nat} (h : m ≤ n) :
    (committed (w.inside m)).length ≤ (committed (w.inside n)).length := by
  have hdiv : (m - walHeaderBytes) / w.header.frameBytes ≤
      (n - walHeaderBytes) / w.header.frameBytes :=
    Nat.div_le_div_right (by omega)
  obtain ⟨k, hk⟩ := Nat.exists_eq_add_of_le hdiv
  rw [inside, inside, hk, take_add]
  exact length_committed_append _ _

open WellFormedWal

/-- **A log that was cut off.** A part of a well-formed log is analysed exactly if it is within the
    limits of the inspection, and then the plan names the last commit that lies in it; it is never
    taken for a damaged log, and a longer part has no fewer committed frames. -/
theorem analyzeWal_take (w : WellFormedWal) (mainPages : Nat) {n : Nat}
    (hheader : walHeaderBytes ≤ n) (hlength : n ≤ w.bytes.length) :
    (∀ plan, analyzeWal (w.bytes.take n) n w.header.pageSize mainPages = .ok plan ↔
      w.Inspectable n ∧ plan = w.plan mainPages n) ∧
    (∀ message,
      analyzeWal (w.bytes.take n) n w.header.pageSize mainPages ≠ .error (.corrupt message)) ∧
    ∀ m, m ≤ n →
      (w.plan mainPages m).lastCommittedFrame ≤ (w.plan mainPages n).lastCommittedFrame := by
  have hn : (w.bytes.take n).length = n := by rw [length_take, Nat.min_eq_left hlength]
  have hread := readWalHeader_take hheader hlength
  refine ⟨?_, ?_, fun m hm => w.length_committed_mono hm⟩
  · intro plan
    have hanalyze := @analyzeWal_eq_ok (w.bytes.take n) mainPages w.header.pageSize plan
    rw [hn, frames_take hheader hlength] at hanalyze
    rw [hanalyze]
    have hplan := @foldl_advance w.header mainPages (w.inside n)
    constructor
    · rintro ⟨hsized, header, s, hread', -, hcheck, rfl⟩
      cases hread.symm.trans hread'
      obtain ⟨hs, hrange⟩ := checkFrames_eq_ok hcheck
      rw [show (Scan.start w.header mainPages).checksum = w.header.checksum from rfl, valid_inside]
        at hs hrange
      refine ⟨⟨?_, fun f hf => (hrange f hf).committed_le⟩, ?_⟩
      · rw [← hn]
        exact hsized.le_max
      · rw [hs, hplan.2.1, hplan.2.2]
        rfl
    · rintro ⟨⟨hmax, hcounts⟩, rfl⟩
      have hrange : ∀ f ∈ w.inside n, f.InRange w.header.maximumPages := by
        intro f hf
        have hmem := mem_of_inside hf
        exact ⟨(w.page f hmem).1, (w.page f hmem).2, hcounts f hf, w.commit f hmem⟩
      refine ⟨⟨by rw [hn]; exact hheader, by rw [hn]; exact hmax⟩, w.header, _, hread, rfl,
        checkFrames_of_valid valid_inside hrange, ?_⟩
      rw [hplan.2.1, hplan.2.2]
      rfl
  · intro message
    rcases Nat.lt_or_ge maxWalBytes n with hover | hmax
    · have hshort : decide (n < walHeaderBytes) = false := by simpa using hheader
      have hlong : decide (n > maxWalBytes) = true := by simpa using hover
      rw [analyzeWal, hshort, hlong]
      intro h
      cases h
    · have hsized : Sized (w.bytes.take n) := ⟨by rw [hn]; exact hheader, by rw [hn]; exact hmax⟩
      have hanalyze := @analyzeWal_of_sized _ w.header mainPages hsized hread
      rw [hn, frames_take hheader hlength] at hanalyze
      rw [hanalyze]
      have hcheck := checkFrames_ne_corrupt (s := Scan.start w.header mainPages)
        (valid_inside (w := w) (n := n)) (fun f hf => w.page f (mem_of_inside hf))
        (fun f hf => w.commit f (mem_of_inside hf)) message
      intro h
      cases hframes : checkFrames w.header (w.inside n) (Scan.start w.header mainPages) with
      | ok s =>
        rw [hframes] at h
        cases h
      | error e =>
        rw [hframes] at h
        cases h
        exact hcheck hframes

/-- A log of one transaction, of one page of zeros, that leaves the database with the given number
    of pages; the number and the two checksums are given as bytes. -/
def onePage (count stored : Bytes) : Frame where
  header := [0, 0, 0, 1] ++ count ++ [1, 2, 3, 4, 5, 6, 7, 8] ++ stored
  page := replicate 512 0

def smallHeader : WalHeader where
  pageSize := 512
  salt := [1, 2, 3, 4, 5, 6, 7, 8]
  checksumOrder := .bigEndian
  checksum := (386321883, 3269832348)

def smallHeaderBytes : Bytes :=
  [55, 127, 6, 131, 0, 45, 226, 24, 0, 0, 2, 0, 0, 0, 0, 0, 1, 2, 3, 4, 5, 6, 7, 8, 23, 6, 205, 219,
    194, 229, 174, 156]

theorem read_smallHeader : readWalHeader smallHeaderBytes = .ok smallHeader := by
  decide +kernel

/-- The database has one page after the transaction. -/
def smallWal : WellFormedWal where
  headerBytes := smallHeaderBytes
  header := smallHeader
  frames := [onePage [0, 0, 0, 1] [75, 76, 178, 193, 156, 127, 18, 226]]
  length_header := rfl
  read_header := read_smallHeader
  length_frame := by decide +kernel
  valid := if_pos (by decide +kernel)
  page := by decide +kernel
  commit := by decide +kernel

/-- The database has one page more after the transaction than a database that is inspected. -/
def wideWal : WellFormedWal where
  headerBytes := smallHeaderBytes
  header := smallHeader
  frames := [onePage [0, 4, 0, 1] [246, 96, 178, 193, 200, 7, 18, 226]]
  length_header := rfl
  read_header := read_smallHeader
  length_frame := by decide +kernel
  valid := if_pos (by decide +kernel)
  page := by decide +kernel
  commit := by decide +kernel

/-- The log, and the log without its last byte. -/
theorem analyzeWal_take_small :
    analyzeWal (smallWal.bytes.take 568) 568 smallWal.header.pageSize 7 = .ok ⟨smallHeader, 1, 1⟩ ∧
    analyzeWal (smallWal.bytes.take 567) 567 smallWal.header.pageSize 7 = .ok ⟨smallHeader, 0,
      7⟩ := by
  have hlength : smallWal.bytes.length = 568 := by decide +kernel
  have hwhole : smallWal.Inspectable 568 := by
    refine ⟨by decide, ?_⟩
    decide +kernel
  have htorn : smallWal.Inspectable 567 := by
    refine ⟨by decide, ?_⟩
    decide +kernel
  exact ⟨((analyzeWal_take smallWal 7 (by decide) (by omega)).1 _).mpr ⟨hwhole, by decide +kernel⟩,
    ((analyzeWal_take smallWal 7 (by decide) (by omega)).1 _).mpr ⟨htorn, by decide +kernel⟩⟩

/-- A log that is well formed and is not analysed. -/
theorem analyzeWal_wide :
    analyzeWal (wideWal.bytes.take 568) 568 wideWal.header.pageSize 7 =
      .error (.limit "state database WAL commit exceeds the inspection limit") := by
  decide +kernel

end Wokcore.Storage.Wal
